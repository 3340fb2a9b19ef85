import SimpleOs.Lib.Lts

/-!
# The timer and its devices

The timer of `timer.c` drives every CPU and the loader in lock step. Each
device owns a `timer_id_t`: two flags, `done` (the work of this slot is
finished) and `fsh` (the device has detached), and a mutex and a condition
variable for each direction. `timer_routine` walks over the device list twice
in every slot: first it waits until every device has raised one of its flags,
then it advances `_time` and clears every `done`.

The model is a step relation over the interleavings of `timer_routine`, of the
threads of `n` devices and of `stop_timer`. A device thread is any thread that
works, calls `next_slot` as often as it likes, and at the end may call
`detach_event`, after which it calls nothing more. Devices are numbered by
their position in `dev_list`.

One step is one statement of the source. `pthread_cond_wait` is three of them:
release the mutex and fall asleep, be woken (by a signal, or spuriously at any
time), and take the mutex again. Memory is sequentially consistent.
-/

namespace SimpleOs

namespace Timer

/-! ## State -/

/-- The threads that lock the mutexes of one device: the timer and the device. -/
inductive Owner
  | timer
  | device
  deriving DecidableEq, Repr

/-- The position of a device thread. `working` is outside this module; the
next nine positions are inside `next_slot` and the four after them inside
`detach_event`. -/
inductive DevicePc
  | working
  | lockEvent
  | setDone
  | signalEvent
  | unlockEvent
  | lockTimer
  | whileDone
  | asleep
  | woken
  | unlockTimer
  | detachLock
  | setFsh
  | detachSignal
  | detachUnlock
  | ended
  deriving DecidableEq, Repr

/-- `struct timer_id_t`, with the position of the device's thread. The sleeper
of a condition variable is read off the positions: only the timer waits on an
`event_cond` and only the device on its own `timer_cond`. -/
structure Device where
  done : Bool
  fsh : Bool
  eventLock : Option Owner
  timerLock : Option Owner
  pc : DevicePc
  deriving DecidableEq, Repr

/-- The position of `timer_routine`. The cursor `temp` of both `for` loops is
a field of the state. -/
inductive TimerPc
  | whileStop
  | forEvent
  | lockEvent
  | whileDone
  | asleep
  | woken
  | countFsh
  | unlockEvent
  | incTime
  | forTimer
  | lockTimer
  | clearDone
  | signalTimer
  | unlockTimer
  | breakTest
  | exited
  deriving DecidableEq, Repr

/-- The timer, its local variables and the devices. Only the devices below the
length of `dev_list` take steps. -/
structure State where
  time : BitVec 64
  timerStop : Bool
  pc : TimerPc
  temp : ℕ
  fsh : ℕ
  event : ℕ
  device : ℕ → Device

/-- A device as `attach_event` creates it, its thread at work. -/
def attachEvent : Device where
  done := false
  fsh := false
  eventLock := none
  timerLock := none
  pc := .working

/-- The state in which `start_timer` starts the timer thread. -/
def startTimer : State where
  time := 0
  timerStop := false
  pc := .whileStop
  temp := 0
  fsh := 0
  event := 0
  device := fun _ => attachEvent

/-- Replace the record of device `d`. -/
def State.setDevice (s : State) (d : ℕ) (t : Device) : State :=
  { s with device := Function.update s.device d t }

section SetDevice

variable (s : State) (d e : ℕ) (t : Device)

@[simp] theorem setDevice_time : (s.setDevice d t).time = s.time := rfl
@[simp] theorem setDevice_timerStop : (s.setDevice d t).timerStop = s.timerStop := rfl
@[simp] theorem setDevice_pc : (s.setDevice d t).pc = s.pc := rfl
@[simp] theorem setDevice_temp : (s.setDevice d t).temp = s.temp := rfl
@[simp] theorem setDevice_fsh : (s.setDevice d t).fsh = s.fsh := rfl
@[simp] theorem setDevice_event : (s.setDevice d t).event = s.event := rfl

@[simp] theorem setDevice_device :
    (s.setDevice d t).device e = if e = d then t else s.device e := by
  simp [State.setDevice, Function.update_apply]

end SetDevice

/-! ## Steps -/

/-- `pthread_cond_signal(&timer_cond)`: the only possible sleeper is the device. -/
def Device.signalTimerCond (t : Device) : Device :=
  { t with pc := if t.pc = .asleep then .woken else t.pc }

/-- One statement of `timer_routine`, or `none` where the timer is blocked. -/
def timerRoutine (n : ℕ) (s : State) : Option State :=
  let d := s.temp
  let t := s.device d
  match s.pc with
  | .whileStop =>
    if s.timerStop then some { s with pc := .exited }
    else some { s with pc := .forEvent, temp := 0, fsh := 0, event := 0 }
  | .forEvent => if d < n then some { s with pc := .lockEvent } else some { s with pc := .incTime }
  | .lockEvent | .woken =>
    if t.eventLock = none then
      some { s.setDevice d { t with eventLock := some .timer } with pc := .whileDone }
    else none
  | .whileDone =>
    if !t.done && !t.fsh then
      some { s.setDevice d { t with eventLock := none } with pc := .asleep }
    else some { s with pc := .countFsh }
  | .asleep => none
  | .countFsh =>
    some { s with pc := .unlockEvent, fsh := if t.fsh then s.fsh + 1 else s.fsh,
                  event := s.event + 1 }
  | .unlockEvent =>
    some { s.setDevice d { t with eventLock := none } with pc := .forEvent, temp := d + 1 }
  | .incTime => some { s with pc := .forTimer, temp := 0, time := s.time + 1 }
  | .forTimer =>
    if d < n then some { s with pc := .lockTimer } else some { s with pc := .breakTest }
  | .lockTimer =>
    if t.timerLock = none then
      some { s.setDevice d { t with timerLock := some .timer } with pc := .clearDone }
    else none
  | .clearDone => some { s.setDevice d { t with done := false } with pc := .signalTimer }
  | .signalTimer =>
    some { s.setDevice d t.signalTimerCond with pc := .unlockTimer }
  | .unlockTimer =>
    some { s.setDevice d { t with timerLock := none } with pc := .forTimer, temp := d + 1 }
  | .breakTest =>
    if s.fsh = s.event then some { s with pc := .exited } else some { s with pc := .whileStop }
  | .exited => none

/-- What a statement of `timer_routine` does, case by case. -/
inductive TimerMove (n : ℕ) (s : State) : State → Prop
  | stopped : s.pc = .whileStop → s.timerStop = true → TimerMove n s { s with pc := .exited }
  | newSlot : s.pc = .whileStop → s.timerStop = false →
      TimerMove n s { s with pc := .forEvent, temp := 0, fsh := 0, event := 0 }
  | nextEvent : s.pc = .forEvent → s.temp < n → TimerMove n s { s with pc := .lockEvent }
  | allEvents : s.pc = .forEvent → n ≤ s.temp → TimerMove n s { s with pc := .incTime }
  | lockEvent : s.pc = .lockEvent ∨ s.pc = .woken → (s.device s.temp).eventLock = none →
      TimerMove n s { s.setDevice s.temp { s.device s.temp with eventLock := some .timer } with
        pc := .whileDone }
  | sleep : s.pc = .whileDone → (s.device s.temp).done = false → (s.device s.temp).fsh = false →
      TimerMove n s { s.setDevice s.temp { s.device s.temp with eventLock := none } with
        pc := .asleep }
  | raised : s.pc = .whileDone → (s.device s.temp).done = true ∨ (s.device s.temp).fsh = true →
      TimerMove n s { s with pc := .countFsh }
  | countFsh : s.pc = .countFsh →
      TimerMove n s { s with pc := .unlockEvent, event := s.event + 1,
                             fsh := if (s.device s.temp).fsh then s.fsh + 1 else s.fsh }
  | unlockEvent : s.pc = .unlockEvent →
      TimerMove n s { s.setDevice s.temp { s.device s.temp with eventLock := none } with
        pc := .forEvent, temp := s.temp + 1 }
  | incTime : s.pc = .incTime →
      TimerMove n s { s with pc := .forTimer, temp := 0, time := s.time + 1 }
  | nextTimer : s.pc = .forTimer → s.temp < n → TimerMove n s { s with pc := .lockTimer }
  | allTimers : s.pc = .forTimer → n ≤ s.temp → TimerMove n s { s with pc := .breakTest }
  | lockTimer : s.pc = .lockTimer → (s.device s.temp).timerLock = none →
      TimerMove n s { s.setDevice s.temp { s.device s.temp with timerLock := some .timer } with
        pc := .clearDone }
  | clearDone : s.pc = .clearDone →
      TimerMove n s { s.setDevice s.temp { s.device s.temp with done := false } with
        pc := .signalTimer }
  | signalTimer : s.pc = .signalTimer →
      TimerMove n s { s.setDevice s.temp (s.device s.temp).signalTimerCond with
        pc := .unlockTimer }
  | unlockTimer : s.pc = .unlockTimer →
      TimerMove n s { s.setDevice s.temp { s.device s.temp with timerLock := none } with
        pc := .forTimer, temp := s.temp + 1 }
  | allEnded : s.pc = .breakTest → s.fsh = s.event → TimerMove n s { s with pc := .exited }
  | again : s.pc = .breakTest → s.fsh ≠ s.event → TimerMove n s { s with pc := .whileStop }

theorem timerRoutine_move {n : ℕ} {s s' : State} (h : timerRoutine n s = some s') :
    TimerMove n s s' := by
  unfold timerRoutine at h
  cases hpc : s.pc <;> simp only [hpc] at h
  case whileStop =>
    split at h
    · next hstop =>
      cases h
      exact .stopped hpc hstop
    · next hstop =>
      cases h
      exact .newSlot hpc (by simpa using hstop)
  case forEvent =>
    split at h
    · next hd =>
      cases h
      exact .nextEvent hpc hd
    · next hd =>
      cases h
      exact .allEvents hpc (Nat.le_of_not_lt hd)
  case lockEvent =>
    obtain ⟨hlock, h⟩ := Option.ite_none_right_eq_some.mp h
    cases h
    exact .lockEvent (.inl hpc) hlock
  case woken =>
    obtain ⟨hlock, h⟩ := Option.ite_none_right_eq_some.mp h
    cases h
    exact .lockEvent (.inr hpc) hlock
  case whileDone =>
    split at h
    · next hclear =>
      cases h
      simp only [Bool.and_eq_true, Bool.not_eq_true'] at hclear
      exact .sleep hpc hclear.1 hclear.2
    · next hraised =>
      cases h
      refine .raised hpc ?_
      rw [Bool.and_eq_true, not_and_or] at hraised
      simpa using hraised
  case countFsh => cases h; exact .countFsh hpc
  case unlockEvent => cases h; exact .unlockEvent hpc
  case incTime => cases h; exact .incTime hpc
  case forTimer =>
    split at h
    · next hd =>
      cases h
      exact .nextTimer hpc hd
    · next hd =>
      cases h
      exact .allTimers hpc (Nat.le_of_not_lt hd)
  case lockTimer =>
    obtain ⟨hlock, h⟩ := Option.ite_none_right_eq_some.mp h
    cases h
    exact .lockTimer hpc hlock
  case clearDone => cases h; exact .clearDone hpc
  case signalTimer => cases h; exact .signalTimer hpc
  case unlockTimer => cases h; exact .unlockTimer hpc
  case breakTest =>
    split at h
    · next heq =>
      cases h
      exact .allEnded hpc heq
    · next hne =>
      cases h
      exact .again hpc hne
  all_goals cases h

/-- One statement of a device thread inside `next_slot` or `detach_event`, as far
as the record of its own device goes; `none` where the thread is blocked or
outside these functions. -/
def Device.statement (t : Device) : Option Device :=
  match t.pc with
  | .working => none
  -- next_slot
  | .lockEvent =>
    if t.eventLock = none then some { t with eventLock := some .device, pc := .setDone } else none
  | .setDone => some { t with done := true, pc := .signalEvent }
  | .signalEvent => some { t with pc := .unlockEvent }
  | .unlockEvent => some { t with eventLock := none, pc := .lockTimer }
  | .lockTimer | .woken =>
    if t.timerLock = none then some { t with timerLock := some .device, pc := .whileDone }
    else none
  | .whileDone =>
    if t.done then some { t with timerLock := none, pc := .asleep }
    else some { t with pc := .unlockTimer }
  | .asleep => none
  | .unlockTimer => some { t with timerLock := none, pc := .working }
  -- detach_event
  | .detachLock =>
    if t.eventLock = none then some { t with eventLock := some .device, pc := .setFsh } else none
  | .setFsh => some { t with fsh := true, pc := .detachSignal }
  | .detachSignal => some { t with pc := .detachUnlock }
  | .detachUnlock => some { t with eventLock := none, pc := .ended }
  | .ended => none

/-- What a statement of a device thread does, one constructor a statement. -/
inductive Device.Statement : Device → Device → Prop
  | lockEvent {done fsh : Bool} {tl : Option Owner} :
      Statement ⟨done, fsh, none, tl, .lockEvent⟩ ⟨done, fsh, some .device, tl, .setDone⟩
  | setDone {done fsh : Bool} {el tl : Option Owner} :
      Statement ⟨done, fsh, el, tl, .setDone⟩ ⟨true, fsh, el, tl, .signalEvent⟩
  | signalEvent {done fsh : Bool} {el tl : Option Owner} :
      Statement ⟨done, fsh, el, tl, .signalEvent⟩ ⟨done, fsh, el, tl, .unlockEvent⟩
  | unlockEvent {done fsh : Bool} {el tl : Option Owner} :
      Statement ⟨done, fsh, el, tl, .unlockEvent⟩ ⟨done, fsh, none, tl, .lockTimer⟩
  | lockTimer {done fsh : Bool} {el : Option Owner} :
      Statement ⟨done, fsh, el, none, .lockTimer⟩ ⟨done, fsh, el, some .device, .whileDone⟩
  | relock {done fsh : Bool} {el : Option Owner} :
      Statement ⟨done, fsh, el, none, .woken⟩ ⟨done, fsh, el, some .device, .whileDone⟩
  | wait {fsh : Bool} {el tl : Option Owner} :
      Statement ⟨true, fsh, el, tl, .whileDone⟩ ⟨true, fsh, el, none, .asleep⟩
  | leave {fsh : Bool} {el tl : Option Owner} :
      Statement ⟨false, fsh, el, tl, .whileDone⟩ ⟨false, fsh, el, tl, .unlockTimer⟩
  | unlockTimer {done fsh : Bool} {el tl : Option Owner} :
      Statement ⟨done, fsh, el, tl, .unlockTimer⟩ ⟨done, fsh, el, none, .working⟩
  | detachLock {done fsh : Bool} {tl : Option Owner} :
      Statement ⟨done, fsh, none, tl, .detachLock⟩ ⟨done, fsh, some .device, tl, .setFsh⟩
  | setFsh {done fsh : Bool} {el tl : Option Owner} :
      Statement ⟨done, fsh, el, tl, .setFsh⟩ ⟨done, true, el, tl, .detachSignal⟩
  | detachSignal {done fsh : Bool} {el tl : Option Owner} :
      Statement ⟨done, fsh, el, tl, .detachSignal⟩ ⟨done, fsh, el, tl, .detachUnlock⟩
  | detachUnlock {done fsh : Bool} {el tl : Option Owner} :
      Statement ⟨done, fsh, el, tl, .detachUnlock⟩ ⟨done, fsh, none, tl, .ended⟩

theorem statement_cases {t t' : Device} (h : t.statement = some t') : t.Statement t' := by
  obtain ⟨done, fsh, el, tl, pc⟩ := t
  cases pc with
  | working | asleep | ended => cases h
  | lockEvent =>
    obtain ⟨rfl, h⟩ := Option.ite_none_right_eq_some.mp h
    cases h
    exact .lockEvent
  | setDone => cases h; exact .setDone
  | signalEvent => cases h; exact .signalEvent
  | unlockEvent => cases h; exact .unlockEvent
  | lockTimer =>
    obtain ⟨rfl, h⟩ := Option.ite_none_right_eq_some.mp h
    cases h
    exact .lockTimer
  | woken =>
    obtain ⟨rfl, h⟩ := Option.ite_none_right_eq_some.mp h
    cases h
    exact .relock
  | whileDone =>
    cases done with
    | true => cases h; exact .wait
    | false => cases h; exact .leave
  | unlockTimer => cases h; exact .unlockTimer
  | detachLock =>
    obtain ⟨rfl, h⟩ := Option.ite_none_right_eq_some.mp h
    cases h
    exact .detachLock
  | setFsh => cases h; exact .setFsh
  | detachSignal => cases h; exact .detachSignal
  | detachUnlock => cases h; exact .detachUnlock

/-- The next statement is `pthread_cond_signal(&event_cond)`. -/
def DevicePc.signals : DevicePc → Bool
  | .signalEvent | .detachSignal => true
  | _ => false

/-- `pthread_cond_signal(&event_cond)` of device `d`: the only possible sleeper
is the timer. -/
def signalEventCond (s : State) (d : ℕ) : State :=
  if s.pc = .asleep ∧ s.temp = d then { s with pc := .woken } else s

/-- One statement of device `d` inside `next_slot` or `detach_event`. -/
def deviceRoutine (s : State) (d : ℕ) : Option State :=
  (s.device d).statement.map fun t =>
    (if (s.device d).pc.signals then signalEventCond s d else s).setDevice d t

/-- Who moves. `nextSlot d` and `detachEvent d` are the calls a working device
makes; the two wake-ups are the spurious ones; `stopTimer` is the store of
`stop_timer`, which `main` calls once every device thread has been joined. -/
inductive Act
  | timer
  | device (d : ℕ)
  | nextSlot (d : ℕ)
  | detachEvent (d : ℕ)
  | wakeTimer
  | wakeDevice (d : ℕ)
  | stopTimer
  deriving DecidableEq, Repr

/-- The action is a call that a device thread makes of its own accord. -/
def Act.isCall : Act → Bool
  | .nextSlot _ | .detachEvent _ => true
  | _ => false

/-- The effect of one action on a system of `n` devices, or `none` where the
action is not possible. -/
def step (n : ℕ) (s : State) : Act → Option State
  | .timer => timerRoutine n s
  | .device d => if d < n then deviceRoutine s d else none
  | .nextSlot d =>
    if d < n ∧ (s.device d).pc = .working then
      some (s.setDevice d { s.device d with pc := .lockEvent })
    else none
  | .detachEvent d =>
    if d < n ∧ (s.device d).pc = .working then
      some (s.setDevice d { s.device d with pc := .detachLock })
    else none
  | .wakeTimer => if s.pc = .asleep then some { s with pc := .woken } else none
  | .wakeDevice d =>
    if d < n ∧ (s.device d).pc = .asleep then
      some (s.setDevice d { s.device d with pc := .woken })
    else none
  | .stopTimer =>
    if ∀ d < n, (s.device d).pc = .ended then some { s with timerStop := true } else none

/-- A timer with `n` devices. -/
def system (n : ℕ) : Lts State Act where
  init s := s = startTimer
  step s a t := step n s a = some t

end Timer

end SimpleOs
