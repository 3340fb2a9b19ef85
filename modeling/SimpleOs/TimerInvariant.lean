import SimpleOs.Timer

/-!
# One device and the timer

The timer meets the devices one after the other, and what it owes device `d` at
any moment depends only on where its cursor stands relative to `d`. `View` is
that dependence: the timer as device `d` sees it. A device, its view of the
timer and the clock form a small two-party protocol, `Local.Step`, in which the
number of devices no longer appears.

Results:
1. `step_local`: every step of the full system is, for every device, a step of
   this protocol or no step at all.
2. `LocalInv.step`: the invariant of the protocol, kept by each of its steps.
3. `localInv_of_reachable`: hence the invariant holds of every device in every
   reachable state, for any number of devices and any interleaving.
-/

namespace SimpleOs

namespace Timer

/-! ## The timer as one device sees it -/

/-- What the timer is doing about one device. -/
inductive View
  /-- It has not counted the device in this slot, or has released it. -/
  | away
  /-- It holds `event_lock` and tests the flags. -/
  | testing
  /-- It sleeps on `event_cond`. -/
  | asleep
  /-- It holds `event_lock` and has seen a flag raised. -/
  | counting
  /-- It has counted the device; `_time` is still to be advanced. -/
  | counted
  /-- It has advanced `_time` and owes the device a cleared `done`. -/
  | owing
  /-- It holds `timer_lock` and is about to clear `done`. -/
  | clearing
  /-- It holds `timer_lock` and is about to signal `timer_cond`. -/
  | signalling
  /-- It holds `timer_lock` and has signalled `timer_cond`. -/
  | unlocking
  deriving DecidableEq, Repr

/-- The view of a device before the cursor. -/
def TimerPc.behind : TimerPc → View
  | .forEvent | .lockEvent | .whileDone | .asleep | .woken | .countFsh | .unlockEvent
  | .incTime => .counted
  | _ => .away

/-- The view of the device at the cursor. -/
def TimerPc.here : TimerPc → View
  | .whileDone => .testing
  | .asleep => .asleep
  | .countFsh | .unlockEvent => .counting
  | .incTime => .counted
  | .forTimer | .lockTimer => .owing
  | .clearDone => .clearing
  | .signalTimer => .signalling
  | .unlockTimer => .unlocking
  | _ => .away

/-- The view of a device the cursor has not reached. -/
def TimerPc.ahead : TimerPc → View
  | .incTime => .counted
  | .forTimer | .lockTimer | .clearDone | .signalTimer | .unlockTimer => .owing
  | _ => .away

/-- The timer as device `d` sees it. -/
def State.view (s : State) (d : ℕ) : View :=
  if d < s.temp then s.pc.behind else if d = s.temp then s.pc.here else s.pc.ahead

/-- The clock, the timer as the device sees it, and the device. -/
structure Local where
  time : BitVec 64
  view : View
  device : Device

/-- What device `d` takes part in. -/
def State.toLocal (s : State) (d : ℕ) : Local :=
  ⟨s.time, s.view d, s.device d⟩

/-- A signal on `event_cond` wakes the timer if it sleeps there. -/
def View.signalled : View → View
  | .asleep => .away
  | v => v

/-- The protocol between the timer and one device. The first ten steps are the
timer's, the others the device's. -/
inductive Local.Step : Local → Local → Prop
  | lockEvent {τ : BitVec 64} {t : Device} : t.eventLock = none →
      Step ⟨τ, .away, t⟩ ⟨τ, .testing, { t with eventLock := some .timer }⟩
  | sleep {τ : BitVec 64} {t : Device} : t.done = false → t.fsh = false →
      Step ⟨τ, .testing, t⟩ ⟨τ, .asleep, { t with eventLock := none }⟩
  | wake {τ : BitVec 64} {t : Device} : Step ⟨τ, .asleep, t⟩ ⟨τ, .away, t⟩
  | count {τ : BitVec 64} {t : Device} : t.done = true ∨ t.fsh = true →
      Step ⟨τ, .testing, t⟩ ⟨τ, .counting, t⟩
  | unlockEvent {τ : BitVec 64} {t : Device} :
      Step ⟨τ, .counting, t⟩ ⟨τ, .counted, { t with eventLock := none }⟩
  | tick {τ : BitVec 64} {t : Device} : Step ⟨τ, .counted, t⟩ ⟨τ + 1, .owing, t⟩
  | lockTimer {τ : BitVec 64} {t : Device} : t.timerLock = none →
      Step ⟨τ, .owing, t⟩ ⟨τ, .clearing, { t with timerLock := some .timer }⟩
  | clear {τ : BitVec 64} {t : Device} :
      Step ⟨τ, .clearing, t⟩ ⟨τ, .signalling, { t with done := false }⟩
  | signal {τ : BitVec 64} {t : Device} :
      Step ⟨τ, .signalling, t⟩ ⟨τ, .unlocking, t.signalTimerCond⟩
  | unlockTimer {τ : BitVec 64} {t : Device} :
      Step ⟨τ, .unlocking, t⟩ ⟨τ, .away, { t with timerLock := none }⟩
  | statement {τ : BitVec 64} {v : View} {t t' : Device} : t.statement = some t' →
      Step ⟨τ, v, t⟩ ⟨τ, if t.pc.signals then v.signalled else v, t'⟩
  | nextSlot {τ : BitVec 64} {v : View} {t : Device} : t.pc = .working →
      Step ⟨τ, v, t⟩ ⟨τ, v, { t with pc := .lockEvent }⟩
  | detachEvent {τ : BitVec 64} {v : View} {t : Device} : t.pc = .working →
      Step ⟨τ, v, t⟩ ⟨τ, v, { t with pc := .detachLock }⟩
  | wakeDevice {τ : BitVec 64} {v : View} {t : Device} : t.pc = .asleep →
      Step ⟨τ, v, t⟩ ⟨τ, v, { t with pc := .woken }⟩

theorem view_setDevice (s : State) (d e : ℕ) (t : Device) :
    (s.setDevice e t).view d = s.view d := rfl

/-- Away from its cursor the timer changes nothing but, once per slot, the clock. -/
theorem timerRoutine_away {n : ℕ} {s s' : State} (h : timerRoutine n s = some s') {d : ℕ}
    (hd : d < n) (hne : d ≠ s.temp) :
    s'.toLocal d = s.toLocal d ∨ (s.toLocal d).Step (s'.toLocal d) := by
  have hside := Nat.lt_or_gt_of_ne hne
  cases timerRoutine_move h with
  | incTime hpc =>
    refine .inr ?_
    simpa [State.toLocal, State.view, hpc, TimerPc.behind, TimerPc.here, TimerPc.ahead] using
      @Local.Step.tick s.time (s.device d)
  | stopped hpc | newSlot hpc | allEnded hpc | again hpc =>
    exact .inl (by simp [State.toLocal, State.view, hpc, TimerPc.behind, TimerPc.here,
      TimerPc.ahead])
  | allEvents hpc hn | allTimers hpc hn =>
    -- The cursor has passed every device.
    have hlt : d < s.temp := Nat.lt_of_lt_of_le hd hn
    exact .inl (by simp [State.toLocal, State.view, hpc, hlt, TimerPc.behind])
  | unlockEvent hpc | unlockTimer hpc =>
    -- The cursor stays on its side of `d`, also where it moves on by one.
    refine .inl ?_
    rcases hside with hlt | hgt
    · simp [State.toLocal, State.view, hpc, hne, hlt, Nat.lt_succ_of_lt hlt, TimerPc.behind]
    · simp [State.toLocal, State.view, hpc, hne, Nat.lt_asymm hgt, Nat.not_le_of_lt hgt,
        TimerPc.here, TimerPc.ahead]
  | lockEvent hpc =>
    refine .inl ?_
    rcases hside with hlt | hgt
    · rcases hpc with hpc | hpc <;>
        simp [State.toLocal, State.view, hpc, hne, hlt, TimerPc.behind]
    · rcases hpc with hpc | hpc <;>
        simp [State.toLocal, State.view, hpc, hne, Nat.lt_asymm hgt, TimerPc.ahead]
  | nextEvent hpc | sleep hpc | raised hpc | countFsh hpc | nextTimer hpc | lockTimer hpc
  | clearDone hpc | signalTimer hpc =>
    refine .inl ?_
    rcases hside with hlt | hgt
    · simp [State.toLocal, State.view, hpc, hne, hlt, TimerPc.behind]
    · simp [State.toLocal, State.view, hpc, hne, Nat.lt_asymm hgt, TimerPc.ahead]

/-- At its cursor the timer takes a step of the protocol, or none. -/
theorem timerRoutine_at {n : ℕ} {s s' : State} (h : timerRoutine n s = some s')
    (hd : s.temp < n) :
    s'.toLocal s.temp = s.toLocal s.temp ∨ (s.toLocal s.temp).Step (s'.toLocal s.temp) := by
  have hhere : s.toLocal s.temp = ⟨s.time, s.pc.here, s.device s.temp⟩ := by
    simp [State.toLocal, State.view]
  cases timerRoutine_move h with
  | stopped hpc | newSlot hpc | nextEvent hpc | countFsh hpc | nextTimer hpc | allEnded hpc
  | again hpc =>
    exact .inl (by simp [State.toLocal, State.view, hpc, TimerPc.here, TimerPc.ahead])
  | allEvents hpc hn | allTimers hpc hn => exact absurd hd (Nat.not_lt_of_le hn)
  | lockEvent hpc hlock =>
    have haway : s.pc.here = .away := by rcases hpc with hpc | hpc <;> rw [hpc] <;> rfl
    rw [hhere, haway]
    refine .inr ?_
    simpa [State.toLocal, State.view, TimerPc.here] using @Local.Step.lockEvent s.time _ hlock
  | sleep hpc hdone hfsh =>
    rw [hhere, hpc]
    refine .inr ?_
    simpa [State.toLocal, State.view, TimerPc.here] using @Local.Step.sleep s.time _ hdone hfsh
  | raised hpc hraised =>
    rw [hhere, hpc]
    refine .inr ?_
    simpa [State.toLocal, State.view, TimerPc.here] using @Local.Step.count s.time _ hraised
  | unlockEvent hpc =>
    rw [hhere, hpc]
    refine .inr ?_
    simpa [State.toLocal, State.view, TimerPc.here, TimerPc.behind] using
      @Local.Step.unlockEvent s.time (s.device s.temp)
  | incTime hpc =>
    rw [hhere, hpc]
    refine .inr ?_
    simpa [State.toLocal, State.view, TimerPc.here, TimerPc.ahead] using
      @Local.Step.tick s.time (s.device s.temp)
  | lockTimer hpc hlock =>
    rw [hhere, hpc]
    refine .inr ?_
    simpa [State.toLocal, State.view, TimerPc.here] using @Local.Step.lockTimer s.time _ hlock
  | clearDone hpc =>
    rw [hhere, hpc]
    refine .inr ?_
    simpa [State.toLocal, State.view, TimerPc.here] using
      @Local.Step.clear s.time (s.device s.temp)
  | signalTimer hpc =>
    rw [hhere, hpc]
    refine .inr ?_
    simpa [State.toLocal, State.view, TimerPc.here] using
      @Local.Step.signal s.time (s.device s.temp)
  | unlockTimer hpc =>
    rw [hhere, hpc]
    refine .inr ?_
    simpa [State.toLocal, State.view, TimerPc.here, TimerPc.behind] using
      @Local.Step.unlockTimer s.time (s.device s.temp)

theorem timerRoutine_local {n : ℕ} {s s' : State} (h : timerRoutine n s = some s') {d : ℕ}
    (hd : d < n) : s'.toLocal d = s.toLocal d ∨ (s.toLocal d).Step (s'.toLocal d) := by
  rcases eq_or_ne d s.temp with rfl | hne
  · exact timerRoutine_at h hd
  · exact timerRoutine_away h hd hne

/-- The signal on the `event_cond` of `e` as device `d` sees it. -/
theorem signalEventCond_view (s : State) (d e : ℕ) :
    (signalEventCond s e).view d = if d = e then (s.view d).signalled else s.view d := by
  obtain ⟨time, stop, pc, temp, fsh, event, device⟩ := s
  unfold signalEventCond
  by_cases hp : pc = .asleep ∧ temp = e
  · obtain ⟨rfl, rfl⟩ := hp
    grind [State.view, View.signalled, TimerPc.behind, TimerPc.here, TimerPc.ahead]
  · rw [if_neg hp]
    split
    · next hde =>
      subst hde
      cases pc <;> grind [State.view, View.signalled, TimerPc.behind, TimerPc.here, TimerPc.ahead]
    · rfl

theorem signalEventCond_device (s : State) (e : ℕ) : (signalEventCond s e).device = s.device := by
  unfold signalEventCond
  split <;> rfl

theorem signalEventCond_time (s : State) (e : ℕ) : (signalEventCond s e).time = s.time := by
  unfold signalEventCond
  split <;> rfl

/-- A change of the record of device `e` that is a step of its own protocol is
no step of any other device's. -/
theorem setDevice_local {s s' : State} {e : ℕ} {t : Device} (htime : s'.time = s.time)
    (hdev : s'.device = s.device) (hview : ∀ d, d ≠ e → s'.view d = s.view d)
    (h : (s.toLocal e).Step ⟨s.time, s'.view e, t⟩) (d : ℕ) :
    (s'.setDevice e t).toLocal d = s.toLocal d ∨
      (s.toLocal d).Step ((s'.setDevice e t).toLocal d) := by
  rcases eq_or_ne d e with rfl | hde
  · exact .inr (by simpa [State.toLocal, view_setDevice, htime] using h)
  · exact .inl (by simp [State.toLocal, view_setDevice, htime, hdev, hview d hde, hde])

/-- A statement of device `e` is a step of its own protocol and of no other
device's. -/
theorem deviceRoutine_local {s s' : State} {e : ℕ} (h : deviceRoutine s e = some s') (d : ℕ) :
    s'.toLocal d = s.toLocal d ∨ (s.toLocal d).Step (s'.toLocal d) := by
  simp only [deviceRoutine, Option.map_eq_some_iff] at h
  obtain ⟨t, ht, rfl⟩ := h
  have hst := @Local.Step.statement s.time (s.view e) _ _ ht
  split
  · next hsig =>
    rw [if_pos hsig] at hst
    refine setDevice_local (signalEventCond_time s e) (signalEventCond_device s e) ?_ ?_ d
    · intro d hde
      rw [signalEventCond_view, if_neg hde]
    · rw [signalEventCond_view, if_pos rfl]
      exact hst
  · next hsig =>
    rw [if_neg hsig] at hst
    exact setDevice_local rfl rfl (fun _ _ => rfl) hst d

/-- Every step of the system is, for each device, a step of its protocol with
the timer, or no step at all. -/
theorem step_local {n : ℕ} {s s' : State} {a : Act} (h : step n s a = some s') {d : ℕ}
    (hd : d < n) : s'.toLocal d = s.toLocal d ∨ (s.toLocal d).Step (s'.toLocal d) := by
  cases a with
  | timer => exact timerRoutine_local h hd
  | device e =>
    obtain ⟨_, h⟩ := Option.ite_none_right_eq_some.mp h
    exact deviceRoutine_local h d
  | nextSlot e =>
    obtain ⟨⟨_, hw⟩, h⟩ := Option.ite_none_right_eq_some.mp h
    cases h
    exact setDevice_local rfl rfl (fun _ _ => rfl) (.nextSlot hw) d
  | detachEvent e =>
    obtain ⟨⟨_, hw⟩, h⟩ := Option.ite_none_right_eq_some.mp h
    cases h
    exact setDevice_local rfl rfl (fun _ _ => rfl) (.detachEvent hw) d
  | wakeTimer =>
    obtain ⟨hp, h⟩ := Option.ite_none_right_eq_some.mp h
    cases h
    rcases Nat.lt_trichotomy d s.temp with hlt | rfl | hlt
    · exact .inl (by simp [State.toLocal, State.view, hlt, hp, TimerPc.behind])
    · exact .inr (by simpa [State.toLocal, State.view, hp, TimerPc.here] using
        @Local.Step.wake s.time (s.device s.temp))
    · exact .inl (by simp [State.toLocal, State.view, Nat.lt_asymm hlt, Nat.ne_of_gt hlt, hp,
        TimerPc.ahead])
  | wakeDevice e =>
    obtain ⟨⟨_, hw⟩, h⟩ := Option.ite_none_right_eq_some.mp h
    cases h
    exact setDevice_local rfl rfl (fun _ _ => rfl) (.wakeDevice hw) d
  | stopTimer =>
    obtain ⟨_, h⟩ := Option.ite_none_right_eq_some.mp h
    cases h
    exact .inl rfl

/-! ## The invariant of the protocol -/

/-- The timer holds `event_lock`. -/
def View.inEvent : View → Bool
  | .testing | .counting => true
  | _ => false

/-- The timer holds `timer_lock`. -/
def View.inTimer : View → Bool
  | .clearing | .signalling | .unlocking => true
  | _ => false

/-- The timer has seen a flag raised in this slot and not yet cleared `done`. -/
def View.isCounted : View → Bool
  | .counting | .counted | .owing | .clearing => true
  | _ => false

/-- The device holds `event_lock`. -/
def DevicePc.inEvent : DevicePc → Bool
  | .setDone | .signalEvent | .unlockEvent | .setFsh | .detachSignal | .detachUnlock => true
  | _ => false

/-- The device holds `timer_lock`. -/
def DevicePc.inTimer : DevicePc → Bool
  | .whileDone | .unlockTimer => true
  | _ => false

/-- The device waits in `next_slot` for its `done` to be cleared. -/
def DevicePc.waiting : DevicePc → Bool
  | .lockTimer | .whileDone | .asleep | .woken => true
  | _ => false

/-- The device has executed `fsh = 1`. -/
def DevicePc.detached : DevicePc → Bool
  | .detachSignal | .detachUnlock | .ended => true
  | _ => false

/-- Who holds a mutex that only the timer and the device lock. -/
def owner (timer device : Bool) : Option Owner :=
  if timer then some .timer else if device then some .device else none

/-- The invariant of the protocol between the timer and one device. -/
structure LocalInv (v : View) (t : Device) : Prop where
  eventLock : t.eventLock = owner v.inEvent t.pc.inEvent
  timerLock : t.timerLock = owner v.inTimer t.pc.inTimer
  event_excl : v.inEvent = true → t.pc.inEvent = false
  timer_excl : v.inTimer = true → t.pc.inTimer = false
  fsh : t.fsh = t.pc.detached
  done_pc : t.done = true → t.pc = .signalEvent ∨ t.pc = .unlockEvent ∨ t.pc.waiting = true
  pc_done : t.pc = .signalEvent ∨ t.pc = .unlockEvent → t.done = true
  counted : v.isCounted = true → t.done = true ∧ t.pc.waiting = true ∨ t.fsh = true
  device_asleep : t.pc = .asleep → t.done = false → v = .signalling
  timer_asleep : v = .asleep → t.done = true ∨ t.fsh = true → t.pc.signals = true

section Signalled

variable (v : View)

@[simp] theorem signalled_inEvent : v.signalled.inEvent = v.inEvent := by cases v <;> rfl
@[simp] theorem signalled_inTimer : v.signalled.inTimer = v.inTimer := by cases v <;> rfl
@[simp] theorem signalled_isCounted : v.signalled.isCounted = v.isCounted := by cases v <;> rfl
@[simp] theorem signalled_ne_asleep : v.signalled ≠ .asleep := by cases v <;> decide

end Signalled

/-- A lock that was free and not the device's is not the timer's. -/
theorem timer_free {b : Bool} (h : none = owner b false) : b = false := by
  cases b with
  | false => rfl
  | true => cases h

/-- The two sides exclude each other. -/
theorem timer_out {b c : Bool} (h : b = true → c = false) (hc : c = true) : b = false := by
  cases b with
  | false => rfl
  | true => rw [h rfl] at hc; cases hc

theorem owner_device {b : Bool} (hb : b = false) : some .device = owner b true := by
  rw [hb]
  rfl

theorem owner_none {b : Bool} (hb : b = false) : none = owner b false := by
  rw [hb]
  rfl

/-- A signal from the device keeps the invariant. -/
theorem LocalInv.signalled {v : View} {t : Device} (hi : LocalInv v t) :
    LocalInv v.signalled t :=
  { hi with
    eventLock := by rw [signalled_inEvent]; exact hi.eventLock
    timerLock := by rw [signalled_inTimer]; exact hi.timerLock
    event_excl := by rw [signalled_inEvent]; exact hi.event_excl
    timer_excl := by rw [signalled_inTimer]; exact hi.timer_excl
    counted := by rw [signalled_isCounted]; exact hi.counted
    device_asleep := fun hp hd => by rw [hi.device_asleep hp hd]; rfl
    timer_asleep := fun h => absurd h (signalled_ne_asleep v) }

/-- Where the device has nothing to wait for, `done` is cleared. -/
theorem LocalInv.not_done {v : View} {t : Device} (hi : LocalInv v t)
    (hpc : t.pc ≠ .signalEvent ∧ t.pc ≠ .unlockEvent) (hw : t.pc.waiting = false) :
    t.done ≠ true := by
  intro hd
  rcases hi.done_pc hd with hp | hp | hp
  · exact hpc.1 hp
  · exact hpc.2 hp
  · rw [hw] at hp
    cases hp

theorem not_raised {pc : DevicePc} {p : Prop} (hpc : pc ≠ .signalEvent ∧ pc ≠ .unlockEvent) :
    pc = .signalEvent ∨ pc = .unlockEvent → p := by
  rintro (hp | hp)
  · exact absurd hp hpc.1
  · exact absurd hp hpc.2

/-- A statement of the device keeps the invariant. -/
theorem LocalInv.statement {v : View} {t t' : Device} (hi : LocalInv v t)
    (h : t.statement = some t') : LocalInv (if t.pc.signals then v.signalled else v) t' := by
  cases statement_cases h with
  | lockEvent =>
    have hv := timer_free hi.eventLock
    exact { hi with
      eventLock := owner_device hv
      event_excl := fun h => absurd (hv.symm.trans h) nofun
      done_pc := fun hd => absurd hd (hi.not_done ⟨nofun, nofun⟩ rfl)
      pc_done := not_raised ⟨nofun, nofun⟩
      device_asleep := nofun }
  | setDone =>
    exact { hi with
      done_pc := fun _ => .inl rfl
      pc_done := fun _ => rfl
      counted := fun hv => .inr ((hi.counted hv).resolve_left fun h => absurd h.2 nofun)
      device_asleep := nofun
      timer_asleep := fun _ _ => rfl }
  | signalEvent =>
    exact { hi.signalled with
      done_pc := fun _ => .inr (.inl rfl)
      pc_done := fun _ => hi.pc_done (.inl rfl)
      device_asleep := nofun
      timer_asleep := fun h => absurd h (signalled_ne_asleep v) }
  | unlockEvent =>
    have hv := timer_out hi.event_excl rfl
    exact { hi with
      eventLock := owner_none hv
      event_excl := fun _ => rfl
      done_pc := fun _ => .inr (.inr rfl)
      pc_done := not_raised ⟨nofun, nofun⟩
      counted := fun h => (hi.counted h).imp_left fun hd => absurd hd.2 nofun
      device_asleep := nofun }
  | lockTimer | relock =>
    have hv := timer_free hi.timerLock
    exact { hi with
      timerLock := owner_device hv
      timer_excl := fun h => absurd (hv.symm.trans h) nofun
      done_pc := fun _ => .inr (.inr rfl)
      pc_done := not_raised ⟨nofun, nofun⟩
      device_asleep := nofun }
  | wait =>
    have hv := timer_out hi.timer_excl rfl
    exact { hi with
      timerLock := owner_none hv
      timer_excl := fun _ => rfl
      done_pc := fun _ => .inr (.inr rfl)
      pc_done := not_raised ⟨nofun, nofun⟩
      device_asleep := fun _ hd => absurd hd nofun }
  | leave =>
    exact { hi with
      done_pc := nofun
      pc_done := not_raised ⟨nofun, nofun⟩
      counted := fun hv => .inr ((hi.counted hv).resolve_left fun h => absurd h.1 nofun)
      device_asleep := nofun }
  | unlockTimer =>
    have hv := timer_out hi.timer_excl rfl
    exact { hi with
      timerLock := owner_none hv
      timer_excl := fun _ => rfl
      done_pc := fun hd => absurd hd (hi.not_done ⟨nofun, nofun⟩ rfl)
      pc_done := not_raised ⟨nofun, nofun⟩
      device_asleep := nofun }
  | detachLock =>
    have hv := timer_free hi.eventLock
    exact { hi with
      eventLock := owner_device hv
      event_excl := fun h => absurd (hv.symm.trans h) nofun
      done_pc := fun hd => absurd hd (hi.not_done ⟨nofun, nofun⟩ rfl)
      pc_done := not_raised ⟨nofun, nofun⟩
      device_asleep := nofun }
  | setFsh =>
    exact { hi with
      fsh := rfl
      done_pc := fun hd => absurd hd (hi.not_done ⟨nofun, nofun⟩ rfl)
      pc_done := not_raised ⟨nofun, nofun⟩
      counted := fun _ => .inr rfl
      device_asleep := nofun
      timer_asleep := fun _ _ => rfl }
  | detachSignal =>
    exact { hi.signalled with
      done_pc := fun hd => absurd hd (hi.not_done ⟨nofun, nofun⟩ rfl)
      pc_done := not_raised ⟨nofun, nofun⟩
      device_asleep := nofun
      timer_asleep := fun h => absurd h (signalled_ne_asleep v) }
  | detachUnlock =>
    have hv := timer_out hi.event_excl rfl
    exact { hi with
      eventLock := owner_none hv
      event_excl := fun _ => rfl
      done_pc := fun hd => absurd hd (hi.not_done ⟨nofun, nofun⟩ rfl)
      pc_done := not_raised ⟨nofun, nofun⟩
      device_asleep := nofun }

/-- A lock that was free and not the timer's is not the device's. -/
theorem device_free {lock : Option Owner} {b : Bool} (h : lock = owner false b) (hl : lock = none) :
    b = false := by
  cases b
  · rfl
  · rw [hl] at h
    cases h

theorem LocalInv.lockEvent {t : Device} (hi : LocalInv .away t) (hl : t.eventLock = none) :
    LocalInv .testing { t with eventLock := some .timer } :=
  { hi with
    eventLock := rfl
    event_excl := fun _ => device_free hi.eventLock hl
    counted := nofun
    device_asleep := fun hp hd => absurd (hi.device_asleep hp hd) nofun
    timer_asleep := nofun }

theorem LocalInv.sleep {t : Device} (hi : LocalInv .testing t) (hd : t.done = false)
    (hf : t.fsh = false) : LocalInv .asleep { t with eventLock := none } :=
  { hi with
    eventLock := by
      change none = owner false t.pc.inEvent
      rw [hi.event_excl rfl]
      rfl
    event_excl := nofun
    counted := nofun
    device_asleep := fun hp hd => absurd (hi.device_asleep hp hd) nofun
    timer_asleep := fun _ h => by simp [hd, hf] at h }

theorem LocalInv.wake {t : Device} (hi : LocalInv .asleep t) : LocalInv .away t :=
  { hi with
    counted := nofun
    device_asleep := fun hp hd => absurd (hi.device_asleep hp hd) nofun
    timer_asleep := nofun }

theorem not_waiting_of_inEvent {pc : DevicePc} (h : pc.inEvent = false)
    (hp : pc = .signalEvent ∨ pc = .unlockEvent ∨ pc.waiting = true) : pc.waiting = true := by
  rcases hp with rfl | rfl | hp
  · cases h
  · cases h
  · exact hp

theorem LocalInv.count {t : Device} (hi : LocalInv .testing t)
    (h : t.done = true ∨ t.fsh = true) : LocalInv .counting t :=
  { hi with
    counted := fun _ => h.imp_left fun hd =>
      ⟨hd, not_waiting_of_inEvent (hi.event_excl rfl) (hi.done_pc hd)⟩
    device_asleep := fun hp hd => absurd (hi.device_asleep hp hd) nofun
    timer_asleep := nofun }

theorem LocalInv.unlockEvent {t : Device} (hi : LocalInv .counting t) :
    LocalInv .counted { t with eventLock := none } :=
  { hi with
    eventLock := by
      change none = owner false t.pc.inEvent
      rw [hi.event_excl rfl]
      rfl
    event_excl := nofun
    device_asleep := fun hp hd => absurd (hi.device_asleep hp hd) nofun
    timer_asleep := nofun }

theorem LocalInv.tick {t : Device} (hi : LocalInv .counted t) : LocalInv .owing t :=
  { hi with
    device_asleep := fun hp hd => absurd (hi.device_asleep hp hd) nofun
    timer_asleep := nofun }

theorem LocalInv.lockTimer {t : Device} (hi : LocalInv .owing t) (hl : t.timerLock = none) :
    LocalInv .clearing { t with timerLock := some .timer } :=
  { hi with
    timerLock := rfl
    timer_excl := fun _ => device_free hi.timerLock hl
    device_asleep := fun hp hd => absurd (hi.device_asleep hp hd) nofun
    timer_asleep := nofun }

theorem LocalInv.clear {t : Device} (hi : LocalInv .clearing t) :
    LocalInv .signalling { t with done := false } :=
  { hi with
    done_pc := nofun
    pc_done := fun hp => by
      have hfsh := hi.fsh
      rcases hi.counted rfl with ⟨-, hw⟩ | hf
      · rcases hp with hp | hp <;> rw [show t.pc = _ from hp] at hw <;> cases hw
      · rw [hf] at hfsh
        rcases hp with hp | hp <;> rw [show t.pc = _ from hp] at hfsh <;> cases hfsh
    counted := nofun
    device_asleep := fun _ _ => rfl
    timer_asleep := nofun }

theorem LocalInv.signal {t : Device} (hi : LocalInv .signalling t) :
    LocalInv .unlocking t.signalTimerCond := by
  obtain ⟨done, fsh, eventLock, timerLock, pc⟩ := t
  rcases eq_or_ne pc .asleep with rfl | hp
  · exact { hi with
      done_pc := fun _ => .inr (.inr rfl)
      pc_done := nofun
      counted := nofun
      device_asleep := nofun
      timer_asleep := nofun }
  · rw [Device.signalTimerCond, if_neg hp]
    exact { hi with
      counted := nofun
      device_asleep := fun h => absurd h hp
      timer_asleep := nofun }

theorem LocalInv.unlockTimer {t : Device} (hi : LocalInv .unlocking t) :
    LocalInv .away { t with timerLock := none } :=
  { hi with
    timerLock := by
      change none = owner false t.pc.inTimer
      rw [hi.timer_excl rfl]
      rfl
    timer_excl := nofun
    counted := nofun
    device_asleep := fun hp hd => absurd (hi.device_asleep hp hd) nofun
    timer_asleep := nofun }

/-- A working device has both flags down. -/
theorem LocalInv.working {v : View} {t : Device} (hi : LocalInv v t) (hw : t.pc = .working) :
    t.done = false ∧ t.fsh = false := by
  have hfsh := hi.fsh
  rw [hw] at hfsh
  refine ⟨Bool.eq_false_iff.mpr fun hd => ?_, hfsh⟩
  have hpc := hi.done_pc hd
  rw [hw] at hpc
  rcases hpc with h | h | h <;> cases h

/-- The call of `next_slot` or `detach_event`. -/
theorem LocalInv.call {v : View} {t : Device} {pc : DevicePc} (hi : LocalInv v t)
    (hw : t.pc = .working) (hpc : pc = .lockEvent ∨ pc = .detachLock) :
    LocalInv v { t with pc := pc } := by
  obtain ⟨hd, hf⟩ := hi.working hw
  obtain ⟨done, fsh, eventLock, timerLock, pc'⟩ := t
  obtain rfl : pc' = .working := hw
  rcases hpc with rfl | rfl
  all_goals
    exact { hi with
      done_pc := fun h => absurd (hd.symm.trans h) nofun
      pc_done := nofun
      counted := fun h => .inr ((hi.counted h).resolve_left fun h => by cases h.2)
      device_asleep := nofun
      timer_asleep := fun _ h => h.elim (fun h => absurd (hd.symm.trans h) nofun)
        fun h => absurd (hf.symm.trans h) nofun }

/-- A spurious wake-up of the device. -/
theorem LocalInv.wakeDevice {v : View} {t : Device} (hi : LocalInv v t) (hp : t.pc = .asleep) :
    LocalInv v { t with pc := .woken } := by
  obtain ⟨done, fsh, eventLock, timerLock, pc⟩ := t
  obtain rfl : pc = .asleep := hp
  exact { hi with
    done_pc := fun _ => .inr (.inr rfl)
    pc_done := nofun
    device_asleep := nofun }

/-- Every step of the protocol keeps the invariant. -/
theorem LocalInv.step {l l' : Local} (h : l.Step l') (hi : LocalInv l.view l.device) :
    LocalInv l'.view l'.device := by
  cases h with
  | lockEvent hl => exact hi.lockEvent hl
  | sleep hd hf => exact hi.sleep hd hf
  | wake => exact hi.wake
  | count h => exact hi.count h
  | unlockEvent => exact hi.unlockEvent
  | tick => exact hi.tick
  | lockTimer hl => exact hi.lockTimer hl
  | clear => exact hi.clear
  | signal => exact hi.signal
  | unlockTimer => exact hi.unlockTimer
  | statement h => exact hi.statement h
  | nextSlot hw => exact hi.call hw (.inl rfl)
  | detachEvent hw => exact hi.call hw (.inr rfl)
  | wakeDevice hp => exact hi.wakeDevice hp

/-- The invariant holds of every device in every reachable state, for any
number of devices and any interleaving. -/
theorem localInv_of_reachable {n : ℕ} {s : State} (hs : (system n).Reachable s) {d : ℕ}
    (hd : d < n) : LocalInv (s.view d) (s.device d) := by
  refine hs.invariant (I := fun s => LocalInv (s.view d) (s.device d)) ?_ ?_
  · rintro s rfl
    have hv : startTimer.view d = .away := by
      cases d <;> rfl
    rw [hv]
    constructor <;> simp [startTimer, attachEvent, owner, View.inEvent, View.inTimer,
      View.isCounted, DevicePc.inEvent, DevicePc.inTimer, DevicePc.detached]
  · intro s a s' hi hst
    rcases step_local hst hd with heq | hl
    · simp only [State.toLocal, Local.mk.injEq] at heq
      rw [heq.2.1, heq.2.2]
      exact hi
    · exact LocalInv.step hl hi

/-! ## The clock inside one call of next_slot -/

/-- The device is inside `next_slot`. -/
def DevicePc.inNextSlot : DevicePc → Bool
  | .lockEvent | .setDone | .signalEvent | .unlockEvent
  | .lockTimer | .whileDone | .asleep | .woken | .unlockTimer => true
  | _ => false

/-- `_time` has been advanced in this slot and `done` is still to be cleared. -/
def View.afterTick : View → Bool
  | .owing | .clearing => true
  | _ => false

@[simp] theorem signalled_afterTick (v : View) : v.signalled.afterTick = v.afterTick := by
  cases v <;> rfl

theorem isCounted_of_afterTick {v : View} (h : v.afterTick = true) : v.isCounted = true := by
  cases v <;> first | rfl | cases h

/-- The device is inside `next_slot` and `_time` has not advanced since the call. -/
def Local.beforeTick (l : Local) : Prop :=
  l.device.pc = .lockEvent ∨ l.device.pc = .setDone ∨
    l.device.done = true ∧ l.view.afterTick = false

/-- The clock of a device inside a call of `next_slot` made at time `τ`: still
`τ` before the tick of this slot, and one more after it. -/
structure CalledAt (τ : BitVec 64) (l : Local) : Prop where
  before : l.beforeTick → l.time = τ
  after : ¬ l.beforeTick → l.time = τ + 1

theorem inNextSlot_not_detached {pc : DevicePc} (h : pc.inNextSlot = true) :
    pc.detached = false := by
  cases pc <;> first | rfl | cases h

/-- A step that does not move the clock, nor the device or the timer past it. -/
theorem CalledAt.congr {τ : BitVec 64} {l l' : Local} (hc : CalledAt τ l)
    (htime : l'.time = l.time) (hb : l'.beforeTick ↔ l.beforeTick) : CalledAt τ l' where
  before h := htime.trans (hc.before (hb.mp h))
  after h := htime.trans (hc.after fun h' => h (hb.mpr h'))

/-- Behind `done = 1`, only `done` and the timer say whether the tick is past. -/
theorem beforeTick_iff {l l' : Local} (hpc : l.device.pc ≠ .lockEvent ∧ l.device.pc ≠ .setDone)
    (hpc' : l'.device.pc ≠ .lockEvent ∧ l'.device.pc ≠ .setDone)
    (hdone : l'.device.done = l.device.done) (hview : l'.view.afterTick = l.view.afterTick) :
    l'.beforeTick ↔ l.beforeTick := by
  have hraised : ∀ l : Local, l.device.pc ≠ .lockEvent ∧ l.device.pc ≠ .setDone →
      (l.beforeTick ↔ l.device.done = true ∧ l.view.afterTick = false) :=
    fun l hl => (or_iff_right hl.1).trans (or_iff_right hl.2)
  rw [hraised l hpc, hraised l' hpc', hdone, hview]

theorem CalledAt.statement {τ τ' : BitVec 64} {v : View} {t t' : Device} (hi : LocalInv v t)
    (hin : t.pc.inNextSlot = true) (h : t.statement = some t') (hc : CalledAt τ ⟨τ', v, t⟩) :
    CalledAt τ ⟨τ', if t.pc.signals then v.signalled else v, t'⟩ := by
  cases statement_cases h with
  | lockEvent => exact hc.congr rfl (iff_of_true (.inr (.inl rfl)) (.inl rfl))
  | @setDone done fsh el tl =>
    -- The device has not been counted yet, so the tick is still to come.
    have hnot : v.afterTick = false := by
      cases hv : v.afterTick with
      | false => rfl
      | true =>
        rcases hi.counted (isCounted_of_afterTick hv) with ⟨-, hw⟩ | hfsh
        · cases hw
        · have hdetached : fsh = false := hi.fsh
          rw [show fsh = true from hfsh] at hdetached
          cases hdetached
    exact hc.congr rfl (iff_of_true (.inr (.inr ⟨rfl, hnot⟩)) (.inr (.inl rfl)))
  | signalEvent =>
    exact hc.congr rfl (beforeTick_iff ⟨nofun, nofun⟩ ⟨nofun, nofun⟩ rfl (signalled_afterTick v))
  | unlockEvent | lockTimer | relock | wait | leave | unlockTimer =>
    exact hc.congr rfl (beforeTick_iff ⟨nofun, nofun⟩ ⟨nofun, nofun⟩ rfl rfl)
  | detachLock | setFsh | detachSignal | detachUnlock => cases hin

/-- The tick of the slot finds the device past `done = 1`. -/
theorem CalledAt.tick {τ τ' : BitVec 64} {t : Device} (hi : LocalInv .counted t)
    (hin : t.pc.inNextSlot = true) (hc : CalledAt τ ⟨τ', .counted, t⟩) :
    CalledAt τ ⟨τ' + 1, .owing, t⟩ := by
  have hfsh : t.fsh = false := hi.fsh.trans (inNextSlot_not_detached hin)
  obtain ⟨hdone, hw⟩ : t.done = true ∧ t.pc.waiting = true := by
    simpa [hfsh] using hi.counted rfl
  have hτ : τ' = τ := hc.before (.inr (.inr ⟨hdone, rfl⟩))
  have hnot : ¬ Local.beforeTick ⟨τ' + 1, .owing, t⟩ := by
    rintro (hp | hp | ⟨_, hp⟩)
    · exact absurd hw (by simp [show t.pc = _ from hp, DevicePc.waiting])
    · exact absurd hw (by simp [show t.pc = _ from hp, DevicePc.waiting])
    · cases hp
  exact ⟨fun hb => absurd hb hnot, fun _ => by rw [hτ]⟩

/-- When the timer clears `done`, the device waits for just that. -/
theorem CalledAt.clear {τ τ' : BitVec 64} {t : Device} (hi : LocalInv .clearing t)
    (hin : t.pc.inNextSlot = true) (hc : CalledAt τ ⟨τ', .clearing, t⟩) :
    CalledAt τ ⟨τ', .signalling, { t with done := false }⟩ := by
  have hfsh : t.fsh = false := hi.fsh.trans (inNextSlot_not_detached hin)
  obtain ⟨-, hw⟩ : t.done = true ∧ t.pc.waiting = true := by
    simpa [hfsh] using hi.counted rfl
  have hlock : t.pc ≠ .lockEvent := fun hp => absurd hw (by simp [hp, DevicePc.waiting])
  have hset : t.pc ≠ .setDone := fun hp => absurd hw (by simp [hp, DevicePc.waiting])
  refine hc.congr rfl ?_
  simp [Local.beforeTick, hlock, hset, View.afterTick]

theorem CalledAt.signal {τ τ' : BitVec 64} {t : Device} (hc : CalledAt τ ⟨τ', .signalling, t⟩) :
    CalledAt τ ⟨τ', .unlocking, t.signalTimerCond⟩ := by
  refine hc.congr rfl ?_
  by_cases hp : t.pc = .asleep
  · simp [Local.beforeTick, Device.signalTimerCond, hp, View.afterTick]
  · simp [Local.beforeTick, Device.signalTimerCond, hp, View.afterTick]

/-- Inside `next_slot` the clock advances once, at the tick of the slot. -/
theorem CalledAt.step {τ : BitVec 64} {l l' : Local} (h : l.Step l')
    (hi : LocalInv l.view l.device) (hin : l.device.pc.inNextSlot = true)
    (hc : CalledAt τ l) : CalledAt τ l' := by
  cases h with
  | statement h => exact hc.statement hi hin h
  | tick => exact hc.tick hi hin
  | clear => exact hc.clear hi hin
  | signal => exact hc.signal
  | wakeDevice hp => exact hc.congr rfl (by simp [Local.beforeTick, hp])
  | nextSlot hw | detachEvent hw => exact absurd hin (by simp [hw, DevicePc.inNextSlot])
  | _ => exact hc.congr rfl Iff.rfl

end Timer

end SimpleOs
