import SimpleOs.Common
import SimpleOs.Lib.LinkedList
import SimpleOs.SlotBarrier

/-!
# The device list in memory

`attach_event` allocates a container for each device and links it in front of
`dev_list`; the pointer it returns is all that a thread has of its device.
`timer_routine` walks the list with the pointer `temp`, and `stop_timer` takes the
list apart and frees the containers.

In `Timer` the devices are numbered by their position in the list. Here they are
nodes in a heap, a pointer may be null or lead to a container that is freed, and the
threads are numbered in the order in which their devices are attached.

Result: `Represents.step`: as long as the list stands, no thread follows a pointer to
anything but a container, and with the pointers the threads do what they do by
position.
-/

namespace SimpleOs

namespace Timer

open LinkedList

/-! ## Memory -/

/-- `struct timer_id_t`; a condition variable holds no data. -/
structure TimerId where
  done : Bool
  fsh : Bool
  eventLock : Option Owner
  timerLock : Option Owner
  deriving DecidableEq, Repr

/-- A device: its record, and where its thread is. -/
def TimerId.device (id : TimerId) (pc : DevicePc) : Device :=
  ⟨id.done, id.fsh, id.eventLock, id.timerLock, pc⟩

/-- The record of a device. -/
def Device.timerId (t : Device) : TimerId :=
  ⟨t.done, t.fsh, t.eventLock, t.timerLock⟩

/-- The containers and the variables of `timer.c`, those of `timer_routine` among
them; of each thread the pointer to its device, and where it is in the functions of
`timer.c`. -/
structure Mem where
  heap : Heap TimerId
  devList : Option ℕ
  time : BitVec 64
  timerStarted : Bool
  timerStop : Bool
  pc : TimerPc
  temp : Option ℕ
  fsh : ℕ
  event : ℕ
  timerId : ℕ → Option ℕ
  thread : ℕ → DevicePc

/-- The container that a pointer leads to, with its address. -/
def Mem.container (s : Mem) : Option ℕ → Except Fault (ℕ × Node TimerId)
  | none => .error .nullDeref
  | some a =>
    match s.heap a with
    | none => .error .wildDeref
    | some node => .ok (a, node)

/-- The container at `a` with another record. -/
def Mem.store (s : Mem) (a : ℕ) (node : Node TimerId) (id : TimerId) : Mem :=
  { s with heap := Function.update s.heap a (some { node with val := id }) }

/-! ## The functions -/

/-- `attach_event`: the pointer returned, and the memory after the call. -/
def Mem.attachEvent (malloc : Malloc TimerId) (s : Mem) : Option ℕ × Mem :=
  if s.timerStarted then (none, s)
  else
    let container := malloc.addr s.heap
    -- In both branches `next` is what `dev_list` was.
    let node : Node TimerId := ⟨⟨false, false, none, none⟩, s.devList⟩
    (some container,
      { s with heap := Function.update s.heap container (some node), devList := some container })

/-- A device is attached for thread `i`. -/
def Mem.attach (malloc : Malloc TimerId) (s : Mem) (i : ℕ) : Mem :=
  let (timerId, s) := s.attachEvent malloc
  { s with timerId := Function.update s.timerId i timerId }

/-- `pthread_cond_signal(&temp->id.timer_cond)` on the container at `a`: a thread whose
device it is may sleep there. -/
def Mem.signalTimerCond (s : Mem) (a : ℕ) : ℕ → DevicePc := fun i =>
  if s.timerId i = some a ∧ s.thread i = .asleep then .woken else s.thread i

/-- One statement of `timer_routine`; `none` where the timer is blocked. -/
def Mem.timerRoutine (s : Mem) : Except Fault (Option Mem) :=
  match s.pc with
  | .whileStop =>
    if s.timerStop then .ok (some { s with pc := .exited })
    else .ok (some { s with pc := .forEvent, temp := s.devList, fsh := 0, event := 0 })
  | .forEvent =>
    if s.temp.isSome then .ok (some { s with pc := .lockEvent })
    else .ok (some { s with pc := .incTime })
  | .lockEvent | .woken => do
    let (a, node) ← s.container s.temp
    if node.val.eventLock = none then
      return some { s.store a node { node.val with eventLock := some .timer } with
        pc := .whileDone }
    else return none
  | .whileDone => do
    let (a, node) ← s.container s.temp
    if !node.val.done && !node.val.fsh then
      return some { s.store a node { node.val with eventLock := none } with pc := .asleep }
    else return some { s with pc := .countFsh }
  | .asleep => .ok none
  | .countFsh => do
    let (_, node) ← s.container s.temp
    return some { s with pc := .unlockEvent, event := s.event + 1,
                         fsh := if node.val.fsh then s.fsh + 1 else s.fsh }
  | .unlockEvent => do
    let (a, node) ← s.container s.temp
    return some { s.store a node { node.val with eventLock := none } with
      pc := .forEvent, temp := node.next }
  | .incTime => .ok (some { s with pc := .forTimer, temp := s.devList, time := s.time + 1 })
  | .forTimer =>
    if s.temp.isSome then .ok (some { s with pc := .lockTimer })
    else .ok (some { s with pc := .breakTest })
  | .lockTimer => do
    let (a, node) ← s.container s.temp
    if node.val.timerLock = none then
      return some { s.store a node { node.val with timerLock := some .timer } with
        pc := .clearDone }
    else return none
  | .clearDone => do
    let (a, node) ← s.container s.temp
    return some { s.store a node { node.val with done := false } with pc := .signalTimer }
  | .signalTimer => do
    let (a, _) ← s.container s.temp
    return some { s with pc := .unlockTimer, thread := s.signalTimerCond a }
  | .unlockTimer => do
    let (a, node) ← s.container s.temp
    return some { s.store a node { node.val with timerLock := none } with
      pc := .forTimer, temp := node.next }
  | .breakTest =>
    if s.fsh = s.event then .ok (some { s with pc := .exited })
    else .ok (some { s with pc := .whileStop })
  | .exited => .ok none

/-- The position is inside `next_slot` or `detach_event`. -/
def DevicePc.inCall : DevicePc → Bool
  | .working | .ended => false
  | _ => true

/-- One statement of thread `i` inside `next_slot` or `detach_event`, on the device that
its pointer leads to; `none` where it is blocked or outside these functions. -/
def Mem.deviceRoutine (s : Mem) (i : ℕ) : Except Fault (Option Mem) :=
  if (s.thread i).inCall then do
    let (a, node) ← s.container (s.timerId i)
    match (node.val.device (s.thread i)).statement with
    | none => return none
    | some t =>
      -- The only possible sleeper of `event_cond` is the timer.
      let pc := if (s.thread i).signals ∧ s.pc = .asleep ∧ s.temp = some a then .woken else s.pc
      return some { s.store a node t.timerId with
        pc := pc, thread := Function.update s.thread i t.pc }
  else .ok none

/-- The effect of one action; the actions of a device carry the number of its thread. -/
def Mem.step (s : Mem) : Act → Except Fault (Option Mem)
  | .timer => s.timerRoutine
  | .device i => s.deviceRoutine i
  | .nextSlot i =>
    if s.thread i = .working then
      .ok (some { s with thread := Function.update s.thread i .lockEvent })
    else .ok none
  | .detachEvent i =>
    if s.thread i = .working then
      .ok (some { s with thread := Function.update s.thread i .detachLock })
    else .ok none
  | .wakeTimer => if s.pc = .asleep then .ok (some { s with pc := .woken }) else .ok none
  | .wakeDevice i =>
    if s.thread i = .asleep then
      .ok (some { s with thread := Function.update s.thread i .woken })
    else .ok none
  | .stopTimer => .ok (some { s with timerStop := true })

/-- One round of the loop of `stop_timer`; `none` at the end of the list. -/
def Mem.freeContainer (s : Mem) : Except Fault (Option Mem) :=
  match s.devList with
  | none => .ok none
  | some temp =>
    match s.heap temp with
    | none => .error .wildDeref
    | some node =>
      .ok (some { s with devList := node.next, heap := Function.update s.heap temp none })

/-! ## The list by position -/

/-- The position of thread `i` in a list of `n` devices: each device is attached in
front of the others. -/
def position (n i : ℕ) : ℕ :=
  n - 1 - i

theorem position_lt {n i : ℕ} (h : i < n) : position n i < n := by
  unfold position
  omega

theorem position_position {n i : ℕ} (h : i < n) : position n (position n i) = i := by
  unfold position
  omega

/-- The action of the device at the position of the thread. -/
def Act.byPosition (n : ℕ) : Act → Act
  | .device i => .device (position n i)
  | .nextSlot i => .nextSlot (position n i)
  | .detachEvent i => .detachEvent (position n i)
  | .wakeDevice i => .wakeDevice (position n i)
  | a => a

/-- The address of the container at position `d`, null behind the last one. -/
def addrAt (cells : List (ℕ × TimerId)) (d : ℕ) : Option ℕ :=
  cells[d]?.map Prod.fst

/-- The list of the `n` containers `cells` holds the records of the devices, each thread
has the pointer to its own, and there are no other containers. -/
structure HoldsDevices (n : ℕ) (s : Mem) (cells : List (ℕ × TimerId)) (device : ℕ → Device) :
    Prop where
  linked : Linked s.heap s.devList cells
  length : cells.length = n
  own : ∀ d a id, cells[d]? = some (a, id) →
    s.timerId (position n d) = some a ∧ device d = id.device (s.thread (position n d))
  only : ∀ a, s.heap a ≠ none → a ∈ cells.map Prod.fst

/-- The memory holds the timer `t`. -/
structure Holds (n : ℕ) (s : Mem) (cells : List (ℕ × TimerId)) (t : State) : Prop
    extends HoldsDevices n s cells t.device where
  time : s.time = t.time
  timerStop : s.timerStop = t.timerStop
  pc : s.pc = t.pc
  fsh : s.fsh = t.fsh
  event : s.event = t.event
  temp : t.pc ≠ .whileStop → t.pc ≠ .exited → s.temp = addrAt cells t.temp

/-- The memory holds the timer `t`, in some containers. -/
def Represents (n : ℕ) (s : Mem) (t : State) : Prop :=
  ∃ cells, Holds n s cells t

variable {n d a : ℕ} {s s' : Mem} {t t' : State} {cells : List (ℕ × TimerId)} {id : TimerId}

theorem addrAt_set (hd : cells[d]? = some (a, id)) (id' : TimerId) (e : ℕ) :
    addrAt (cells.set d (a, id')) e = addrAt cells e := by
  unfold addrAt
  rw [List.getElem?_set]
  split
  · next heq =>
    subst heq
    rw [if_pos (List.getElem?_eq_some_iff.mp hd).1, hd]
    rfl
  · rfl

theorem addrAt_isSome (h : cells.length = n) : (addrAt cells d).isSome ↔ d < n := by
  simp [addrAt, ← h]

/-- A record is replaced, and the position of its thread. -/
theorem HoldsDevices.store {device device' : ℕ → Device} (h : HoldsDevices n s cells device)
    (hd : cells[d]? = some (a, id)) {id' : TimerId} {thread : ℕ → DevicePc}
    (hown : device' d = id'.device (thread (position n d)))
    (hother : ∀ e < n, e ≠ d →
      thread (position n e) = s.thread (position n e) ∧ device' e = device e) :
    HoldsDevices n { s.store a ⟨id, addrAt cells (d + 1)⟩ id' with thread := thread }
      (cells.set d (a, id')) device' where
  linked := (h.linked.node hd).2 id'
  length := (List.length_set ..).trans h.length
  own e b id'' he := by
    rw [List.getElem?_set] at he
    split at he
    · next heq =>
      subst heq
      rw [if_pos (List.getElem?_eq_some_iff.mp hd).1] at he
      cases he
      exact ⟨(h.own d a id hd).1, hown⟩
    · next hne =>
      have hlt : e < n := h.length ▸ (List.getElem?_eq_some_iff.mp he).1
      obtain ⟨hthread, hdevice⟩ := hother e hlt (Ne.symm hne)
      obtain ⟨hptr, hrecord⟩ := h.own e b id'' he
      exact ⟨hptr, (hdevice.trans hrecord).trans (congrArg id''.device hthread.symm)⟩
  only b hb := by
    have haddr : (cells.set d (a, id')).map Prod.fst = cells.map Prod.fst := by
      refine List.ext_getElem? fun e => ?_
      rw [List.getElem?_map, List.getElem?_map]
      exact addrAt_set hd id' e
    rw [haddr]
    rcases eq_or_ne b a with rfl | hne
    · exact List.mem_map.mpr ⟨_, List.mem_of_getElem? hd, rfl⟩
    · have hb' : s.heap b ≠ none := by
        rwa [← Function.update_of_ne hne (some ⟨id', addrAt cells (d + 1)⟩) s.heap]
      exact h.only b hb'

/-- The container at position `d`. -/
theorem HoldsDevices.container {device : ℕ → Device} (h : HoldsDevices n s cells device)
    (hd : d < n) : ∃ a id, cells[d]? = some (a, id) ∧
      s.container (some a) = .ok (a, ⟨id, addrAt cells (d + 1)⟩) ∧
      s.timerId (position n d) = some a ∧ device d = id.device (s.thread (position n d)) := by
  obtain ⟨⟨a, id⟩, hat⟩ : ∃ cell, cells[d]? = some cell :=
    ⟨_, List.getElem?_eq_getElem (h.length.symm ▸ hd)⟩
  refine ⟨a, id, hat, ?_, h.own d a id hat⟩
  simp only [Mem.container, (h.linked.node hat).1]
  rfl

/-- Two positions have two containers. -/
theorem HoldsDevices.timerId_ne {device : ℕ → Device} (h : HoldsDevices n s cells device)
    (hd : cells[d]? = some (a, id)) {e : ℕ} (he : e < n) (hne : e ≠ d) :
    s.timerId (position n e) ≠ some a := by
  obtain ⟨b, id', hat, -, hptr, -⟩ := h.container he
  rw [hptr]
  intro heq
  cases heq
  exact hne (h.linked.position hat hd)

/-! ## The timer -/

/-- The timer writes the record of the device at its cursor. -/
theorem Holds.writeDevice {device : Device} {id' : TimerId} (h : Holds n s cells t)
    (hd : cells[t.temp]? = some (a, id))
    (hown : device = id'.device (s.thread (position n t.temp))) :
    HoldsDevices n (s.store a ⟨id, addrAt cells (t.temp + 1)⟩ id') (cells.set t.temp (a, id'))
      (t.setDevice t.temp device).device := by
  have hself : (t.setDevice t.temp device).device t.temp =
      id'.device (s.thread (position n t.temp)) := by
    rw [setDevice_device, if_pos rfl, hown]
  refine h.toHoldsDevices.store hd hself fun e _ hne => ⟨rfl, ?_⟩
  rw [setDevice_device, if_neg hne]

/-- A statement that writes this record and moves on, with the cursor at `cursor`. -/
theorem Holds.writeCursor {device : Device} {id' : TimerId} {pc : TimerPc} {temp : Option ℕ}
    {cursor : ℕ} (h : Holds n s cells t) (hd : cells[t.temp]? = some (a, id))
    (hown : device = id'.device (s.thread (position n t.temp)))
    (htemp : temp = addrAt cells cursor) :
    Holds n { s.store a ⟨id, addrAt cells (t.temp + 1)⟩ id' with pc := pc, temp := temp }
      (cells.set t.temp (a, id'))
      { t.setDevice t.temp device with pc := pc, temp := cursor } :=
  have hdevices := h.writeDevice hd hown
  { linked := hdevices.linked
    length := hdevices.length
    own := hdevices.own
    only := hdevices.only
    time := h.time
    timerStop := h.timerStop
    pc := rfl
    fsh := h.fsh
    event := h.event
    temp := fun _ _ => htemp.trans (addrAt_set hd id' cursor).symm }

/-- The cursor stays. -/
theorem Holds.write {device : Device} {id' : TimerId} {pc : TimerPc} (h : Holds n s cells t)
    (hd : cells[t.temp]? = some (a, id)) (htemp : t.pc ≠ .whileStop ∧ t.pc ≠ .exited)
    (hown : device = id'.device (s.thread (position n t.temp))) :
    Holds n { s.store a ⟨id, addrAt cells (t.temp + 1)⟩ id' with pc := pc }
      (cells.set t.temp (a, id')) { t.setDevice t.temp device with pc := pc } :=
  h.writeCursor hd hown (h.temp htemp.1 htemp.2)

/-- A round of one of the loops ends. -/
theorem Holds.writeNext {device : Device} {id' : TimerId} {pc : TimerPc} (h : Holds n s cells t)
    (hd : cells[t.temp]? = some (a, id))
    (hown : device = id'.device (s.thread (position n t.temp))) :
    Holds n { s.store a ⟨id, addrAt cells (t.temp + 1)⟩ id' with
        pc := pc, temp := addrAt cells (t.temp + 1) }
      (cells.set t.temp (a, id'))
      { t.setDevice t.temp device with pc := pc, temp := t.temp + 1 } :=
  h.writeCursor hd hown rfl

/-- A signal on `timer_cond` of the device at the cursor. -/
theorem Holds.signal {pc : TimerPc} (h : Holds n s cells t)
    (hd : cells[t.temp]? = some (a, id)) (htemp : t.pc ≠ .whileStop ∧ t.pc ≠ .exited) :
    Holds n { s with pc := pc, thread := s.signalTimerCond a } cells
      { t.setDevice t.temp (t.device t.temp).signalTimerCond with pc := pc } where
  linked := h.linked
  length := h.length
  own e b id' he := by
    obtain ⟨hptr, hrecord⟩ := h.own e b id' he
    refine ⟨hptr, ?_⟩
    dsimp only
    rw [setDevice_device]
    rcases eq_or_ne e t.temp with rfl | hne
    · rw [if_pos rfl, hrecord]
      cases hd.symm.trans he
      simp only [Mem.signalTimerCond, hptr, true_and]
      rfl
    · rw [if_neg hne, hrecord]
      have hother := h.timerId_ne hd (h.length ▸ (List.getElem?_eq_some_iff.mp he).1) hne
      simp only [Mem.signalTimerCond, hother, false_and, if_false]
  only := h.only
  time := h.time
  timerStop := h.timerStop
  pc := rfl
  fsh := h.fsh
  event := h.event
  temp _ _ := h.temp htemp.1 htemp.2

/-- The timer with its pointer does what it does with a position. -/
theorem Holds.timerRoutine (h : Holds n s cells t) (hbody : t.pc.inBody = true → t.temp < n) :
    ∃ r, s.timerRoutine = .ok r ∧ Option.Rel (Represents n) r (Timer.timerRoutine n t) := by
  -- Inside the loops `temp` leads to the container at the cursor.
  have hcursor : t.pc.inBody = true → ∃ a id, cells[t.temp]? = some (a, id) ∧
      s.container s.temp = .ok (a, ⟨id, addrAt cells (t.temp + 1)⟩) ∧
      t.device t.temp = id.device (s.thread (position n t.temp)) := by
    intro hin
    obtain ⟨a, id, hat, hcontainer, -, hrecord⟩ := h.toHoldsDevices.container (hbody hin)
    have htemp : s.temp = some a := by
      rw [h.temp (by rintro heq; rw [heq] at hin; cases hin)
        (by rintro heq; rw [heq] at hin; cases hin), addrAt, hat]
      rfl
    exact ⟨a, id, hat, htemp ▸ hcontainer, hrecord⟩
  have hmore : t.pc ≠ .whileStop → t.pc ≠ .exited → (s.temp.isSome = true ↔ t.temp < n) :=
    fun h1 h2 => h.temp h1 h2 ▸ addrAt_isSome h.length
  unfold Mem.timerRoutine Timer.timerRoutine
  rw [h.pc]
  cases hpc : t.pc with
  | asleep | exited => exact ⟨none, rfl, .none⟩
  | whileStop =>
    dsimp only
    split
    · next hstop =>
      rw [if_pos (h.timerStop.symm.trans hstop)]
      exact ⟨_, rfl, .some ⟨cells, { h with pc := rfl, temp := nofun }⟩⟩
    · next hstop =>
      rw [if_neg fun heq => hstop (h.timerStop.trans heq)]
      refine ⟨_, rfl, .some ⟨cells, { h with pc := rfl, fsh := rfl, event := rfl, temp := ?_ }⟩⟩
      exact fun _ _ => h.linked.chain.head
  | forEvent | forTimer =>
    have htemp := h.temp (by simp [hpc]) (by simp [hpc])
    have hiff := hmore (by simp [hpc]) (by simp [hpc])
    dsimp only
    split
    · next hsome =>
      rw [if_pos (hiff.mp hsome)]
      exact ⟨_, rfl, .some ⟨cells, { h with pc := rfl, temp := fun _ _ => htemp }⟩⟩
    · next hnone =>
      rw [if_neg fun hlt => hnone (hiff.mpr hlt)]
      exact ⟨_, rfl, .some ⟨cells, { h with pc := rfl, temp := fun _ _ => htemp }⟩⟩
  | incTime =>
    refine ⟨_, rfl, .some ⟨cells, { h with pc := rfl, time := ?_, temp := ?_ }⟩⟩
    · exact congrArg (· + 1) h.time
    · exact fun _ _ => h.linked.chain.head
  | breakTest =>
    have htemp := h.temp (by simp [hpc]) (by simp [hpc])
    dsimp only
    split
    · next heq =>
      rw [if_pos (by rw [← h.fsh, ← h.event]; exact heq)]
      exact ⟨_, rfl, .some ⟨cells, { h with pc := rfl, temp := fun _ _ => htemp }⟩⟩
    · next hne =>
      rw [if_neg (by rw [← h.fsh, ← h.event]; exact hne)]
      exact ⟨_, rfl, .some ⟨cells, { h with pc := rfl, temp := fun _ _ => htemp }⟩⟩
  | lockEvent | woken =>
    obtain ⟨a, id, hat, hcontainer, hrecord⟩ := hcursor (by rw [hpc]; rfl)
    dsimp only
    rw [hcontainer]
    simp only [ok_bind]
    by_cases hfree : id.eventLock = none
    · rw [if_pos hfree, if_pos (by rw [hrecord]; exact hfree)]
      exact ⟨_, rfl, .some ⟨_, h.write hat (by simp [hpc]) (by rw [hrecord]; rfl)⟩⟩
    · rw [if_neg hfree, if_neg (by rw [hrecord]; exact hfree)]
      exact ⟨_, rfl, .none⟩
  | lockTimer =>
    obtain ⟨a, id, hat, hcontainer, hrecord⟩ := hcursor (by rw [hpc]; rfl)
    dsimp only
    rw [hcontainer]
    simp only [ok_bind]
    by_cases hfree : id.timerLock = none
    · rw [if_pos hfree, if_pos (by rw [hrecord]; exact hfree)]
      exact ⟨_, rfl, .some ⟨_, h.write hat (by simp [hpc]) (by rw [hrecord]; rfl)⟩⟩
    · rw [if_neg hfree, if_neg (by rw [hrecord]; exact hfree)]
      exact ⟨_, rfl, .none⟩
  | whileDone =>
    obtain ⟨a, id, hat, hcontainer, hrecord⟩ := hcursor (by rw [hpc]; rfl)
    have htemp := h.temp (by simp [hpc]) (by simp [hpc])
    dsimp only
    rw [hcontainer]
    simp only [ok_bind]
    by_cases hclear : (!id.done && !id.fsh) = true
    · rw [if_pos hclear, if_pos (by rw [hrecord]; exact hclear)]
      exact ⟨_, rfl, .some ⟨_, h.write hat (by simp [hpc]) (by rw [hrecord]; rfl)⟩⟩
    · rw [if_neg hclear, if_neg (by rw [hrecord]; exact hclear)]
      exact ⟨_, rfl, .some ⟨cells, { h with pc := rfl, temp := fun _ _ => htemp }⟩⟩
  | countFsh =>
    obtain ⟨a, id, hat, hcontainer, hrecord⟩ := hcursor (by rw [hpc]; rfl)
    have htemp := h.temp (by simp [hpc]) (by simp [hpc])
    dsimp only
    rw [hcontainer]
    refine ⟨_, rfl, .some ⟨cells, { h with
      pc := rfl, fsh := ?_, event := ?_, temp := fun _ _ => htemp }⟩⟩
    · show (if id.fsh then s.fsh + 1 else s.fsh) = _
      rw [hrecord, h.fsh]
      rfl
    · exact congrArg (· + 1) h.event
  | unlockEvent | unlockTimer =>
    obtain ⟨a, id, hat, hcontainer, hrecord⟩ := hcursor (by rw [hpc]; rfl)
    dsimp only
    rw [hcontainer]
    exact ⟨_, rfl, .some ⟨_, h.writeNext hat (by rw [hrecord]; rfl)⟩⟩
  | clearDone =>
    obtain ⟨a, id, hat, hcontainer, hrecord⟩ := hcursor (by rw [hpc]; rfl)
    dsimp only
    rw [hcontainer]
    exact ⟨_, rfl, .some ⟨_, h.write hat (by simp [hpc]) (by rw [hrecord]; rfl)⟩⟩
  | signalTimer =>
    obtain ⟨a, id, hat, hcontainer, -⟩ := hcursor (by rw [hpc]; rfl)
    dsimp only
    rw [hcontainer]
    exact ⟨_, rfl, .some ⟨cells, h.signal hat (by simp [hpc])⟩⟩

/-! ## The devices -/

/-- A thread is elsewhere, its record as it was. -/
theorem Holds.moveThread {i : ℕ} (h : Holds n s cells t) (hi : i < n) (pc : DevicePc) :
    Holds n { s with thread := Function.update s.thread i pc } cells
      (t.setDevice (position n i) { t.device (position n i) with pc := pc }) where
  linked := h.linked
  length := h.length
  own e b id' he := by
    obtain ⟨hptr, hrecord⟩ := h.own e b id' he
    have hlt : e < n := h.length ▸ (List.getElem?_eq_some_iff.mp he).1
    refine ⟨hptr, ?_⟩
    show _ = id'.device (Function.update s.thread i pc (position n e))
    rw [setDevice_device]
    rcases eq_or_ne e (position n i) with rfl | hne
    · rw [if_pos rfl, hrecord, position_position hi, Function.update_self]
      rfl
    · have hother : position n e ≠ i := fun heq => hne (heq ▸ (position_position hlt).symm)
      rw [if_neg hne, hrecord, Function.update_of_ne hother]
  only := h.only
  time := h.time
  timerStop := h.timerStop
  pc := h.pc
  fsh := h.fsh
  event := h.event
  temp := h.temp

/-- What a statement of a device does to the timer: the signal wakes it if it sleeps at
this device. -/
theorem setDevice_signal (t : State) (p : ℕ) (t' : Device) (b : Bool) :
    (if b then signalEventCond t p else t).setDevice p t' =
      { t.setDevice p t' with
        pc := if b ∧ t.pc = .asleep ∧ t.temp = p then .woken else t.pc } := by
  cases b with
  | false => rfl
  | true =>
    unfold signalEventCond
    by_cases hasleep : t.pc = .asleep ∧ t.temp = p
    · rw [if_pos rfl, if_pos hasleep, if_pos ⟨rfl, hasleep⟩]
      rfl
    · rw [if_pos rfl, if_neg hasleep, if_neg fun h => hasleep h.2]
      rfl

/-- A statement inside `next_slot` and `detach_event`, with the pointer and by
position. -/
theorem Holds.deviceRoutine {i : ℕ} (h : Holds n s cells t) (hi : i < n) :
    ∃ r, s.deviceRoutine i = .ok r ∧
      Option.Rel (Represents n) r (Timer.deviceRoutine t (position n i)) := by
  obtain ⟨a, id, hat, hcontainer, hptr, hrecord⟩ := h.toHoldsDevices.container (position_lt hi)
  rw [position_position hi] at hptr hrecord
  have hpc : (t.device (position n i)).pc = s.thread i := by rw [hrecord]; rfl
  unfold Mem.deviceRoutine Timer.deviceRoutine
  by_cases hin : (s.thread i).inCall = true
  · rw [if_pos hin, hptr, hcontainer]
    simp only [ok_bind]
    rw [← hrecord]
    cases hst : (t.device (position n i)).statement with
    | none => exact ⟨none, rfl, .none⟩
    | some t' =>
      have hsleeper : t.pc = .asleep → (s.temp = some a ↔ t.temp = position n i) := by
        intro hasleep
        rw [h.temp (by simp [hasleep]) (by simp [hasleep]), addrAt]
        constructor
        · intro htemp
          obtain ⟨⟨b, id'⟩, hcell, rfl⟩ := Option.map_eq_some_iff.mp htemp
          exact h.linked.position hcell hat
        · intro htemp
          rw [htemp, hat]
          rfl
      have hdevices : HoldsDevices n
          { s.store a ⟨id, addrAt cells (position n i + 1)⟩ t'.timerId with
            thread := Function.update s.thread i t'.pc }
          (cells.set (position n i) (a, t'.timerId)) (t.setDevice (position n i) t').device := by
        refine h.toHoldsDevices.store hat ?_ fun e he hne => ⟨?_, ?_⟩
        · rw [setDevice_device, if_pos rfl, position_position hi, Function.update_self]
          rfl
        · refine Function.update_of_ne (fun heq => hne ?_) _ _
          rw [← heq, position_position he]
        · rw [setDevice_device, if_neg hne]
      refine ⟨_, rfl, ?_⟩
      rw [Option.map_some, setDevice_signal, hpc]
      refine .some ⟨_, ⟨hdevices.linked, hdevices.length, hdevices.own, hdevices.only⟩,
        h.time, h.timerStop, ?_, h.fsh, h.event, fun h1 h2 => ?_⟩
      · show (if _ then TimerPc.woken else s.pc) = if _ then TimerPc.woken else t.pc
        rw [h.pc]
        refine if_congr ?_ rfl rfl
        exact and_congr_right fun _ => and_congr_right hsleeper
      · show s.temp = addrAt (cells.set (position n i) (a, t'.timerId)) t.temp
        rw [addrAt_set hat]
        refine h.temp (fun heq => h1 ?_) (fun heq => h2 ?_)
        · exact (if_neg (by simp [heq])).trans heq
        · exact (if_neg (by simp [heq])).trans heq
  · rw [if_neg hin]
    have hnone : (t.device (position n i)).statement = none := by
      unfold Device.statement
      rw [hpc]
      cases hthread : s.thread i <;> first | rfl | (rw [hthread] at hin; exact absurd rfl hin)
    rw [hnone]
    exact ⟨none, rfl, .none⟩

/-! ## Every action -/

/-- The action is one of the timer or of one of `n` threads, and not the store of
`stop_timer`. -/
def Act.within (n : ℕ) : Act → Prop
  | .timer | .wakeTimer => True
  | .device i | .nextSlot i | .detachEvent i | .wakeDevice i => i < n
  | .stopTimer => False

theorem Holds.thread (h : Holds n s cells t) {i : ℕ} (hi : i < n) :
    (t.device (position n i)).pc = s.thread i := by
  obtain ⟨-, id, -, -, -, hrecord⟩ := h.toHoldsDevices.container (position_lt hi)
  rw [hrecord, position_position hi]
  rfl

/-- As long as the list stands, no action follows a pointer to anything but a container,
and each does what it does by position. -/
theorem Represents.step {a : Act} (h : Represents n s t)
    (hbody : t.pc.inBody = true → t.temp < n) (ha : a.within n) :
    ∃ r, s.step a = .ok r ∧ Option.Rel (Represents n) r (Timer.step n t (a.byPosition n)) := by
  obtain ⟨cells, h⟩ := h
  -- A thread that only changes its position.
  have hmove : ∀ i < n, ∀ pc pc', ∃ r,
      (if s.thread i = pc then
        Except.ok (some { s with thread := Function.update s.thread i pc' }) else .ok none) =
          (.ok r : Except Fault (Option Mem)) ∧
      Option.Rel (Represents n) r
        (if position n i < n ∧ (t.device (position n i)).pc = pc then
          some (t.setDevice (position n i) { t.device (position n i) with pc := pc' })
        else none) := by
    intro i hi pc pc'
    by_cases hpc : s.thread i = pc
    · rw [if_pos hpc, if_pos ⟨position_lt hi, (h.thread hi).trans hpc⟩]
      exact ⟨_, rfl, .some ⟨cells, h.moveThread hi pc'⟩⟩
    · rw [if_neg hpc, if_neg fun heq => hpc ((h.thread hi).symm.trans heq.2)]
      exact ⟨_, rfl, .none⟩
  cases a with
  | timer => exact h.timerRoutine hbody
  | device i =>
    obtain ⟨r, hr, hrel⟩ := h.deviceRoutine ha
    refine ⟨r, hr, ?_⟩
    show Option.Rel (Represents n) r (if position n i < n then _ else none)
    rwa [if_pos (position_lt ha)]
  | nextSlot i => exact hmove i ha .working .lockEvent
  | detachEvent i => exact hmove i ha .working .detachLock
  | wakeDevice i => exact hmove i ha .asleep .woken
  | wakeTimer =>
    unfold Mem.step Act.byPosition Timer.step
    dsimp only
    rw [h.pc]
    split
    · next hasleep =>
      have htemp := h.temp (by simp [hasleep]) (by simp [hasleep])
      exact ⟨_, rfl, .some ⟨cells, { h with pc := rfl, temp := fun _ _ => htemp }⟩⟩
    · exact ⟨_, rfl, .none⟩
  | stopTimer => exact ha.elim

theorem Represents.thread (h : Represents n s t) {i : ℕ} (hi : i < n) :
    (t.device (position n i)).pc = s.thread i := by
  obtain ⟨_, hcells⟩ := h
  exact hcells.thread hi

/-- An action with the pointers is the one by position. -/
theorem Represents.step_some {a : Act} (h : Represents n s t)
    (hbody : t.pc.inBody = true → t.temp < n) (ha : a.within n) (hst : s.step a = .ok (some s')) :
    ∃ t', Timer.step n t (a.byPosition n) = some t' ∧ Represents n s' t' := by
  obtain ⟨r, hr, hrel⟩ := h.step hbody ha
  cases hr.symm.trans hst
  generalize hresult : Timer.step n t (a.byPosition n) = result at hrel
  cases hrel with
  | some hrep => exact ⟨_, rfl, hrep⟩

/-- An action by position can be taken with the pointers. -/
theorem Represents.exists_step {a : Act} (h : Represents n s t)
    (hbody : t.pc.inBody = true → t.temp < n) (ha : a.within n)
    (hst : Timer.step n t (a.byPosition n) = some t') : ∃ s', s.step a = .ok (some s') := by
  obtain ⟨r, hr, hrel⟩ := h.step hbody ha
  rw [hst] at hrel
  cases hrel with
  | some hrep => exact ⟨_, hr⟩

/-! ## Building the list and taking it apart -/

/-- The heap is bounded by the addresses in the list. -/
theorem HoldsDevices.bounded {device : ℕ → Device} (h : HoldsDevices n s cells device) :
    s.heap.Bounded := by
  refine ⟨(cells.map Prod.fst).sum + 1, fun a ha => ?_⟩
  by_contra hnode
  have hle := List.single_le_sum (fun _ _ => Nat.zero_le _) a (h.only a hnode)
  omega

/-- Before the timer is started, the next device is attached in front of the others. -/
theorem Holds.attach {k : ℕ} (malloc : Malloc TimerId) (h : Holds k s cells startTimer)
    (hstarted : s.timerStarted = false) (hthread : s.thread k = .working) :
    (s.attach malloc k).timerStarted = false ∧ (s.attach malloc k).thread = s.thread ∧
      ∃ cells', Holds (k + 1) (s.attach malloc k) cells' startTimer := by
  set a := malloc.addr s.heap with ha
  have hfree : s.heap a = none := malloc.free s.heap h.toHoldsDevices.bounded
  have hattach : s.attach malloc k = { s with
      heap := Function.update s.heap a (some ⟨⟨false, false, none, none⟩, s.devList⟩)
      devList := some a
      timerId := Function.update s.timerId k (some a) } := by
    unfold Mem.attach Mem.attachEvent
    rw [hstarted]
    rfl
  rw [hattach]
  refine ⟨hstarted, rfl, (a, ⟨false, false, none, none⟩) :: cells, ?_⟩
  refine ⟨⟨h.linked.push hfree _, ?_, ?_, ?_⟩, h.time, h.timerStop, h.pc, h.fsh, h.event,
    fun hpc => absurd rfl hpc⟩
  · exact congrArg (· + 1) h.length
  · rintro (_ | d) b id hcell
    · cases hcell
      refine ⟨Function.update_self .., ?_⟩
      show Timer.attachEvent = TimerId.device _ (s.thread k)
      rw [hthread]
      rfl
    · have hold : cells[d]? = some (b, id) := hcell
      have hlt : d < k := h.length ▸ (List.getElem?_eq_some_iff.mp hold).1
      have hposition : position (k + 1) (d + 1) = position k d := by
        unfold position
        omega
      rw [hposition]
      obtain ⟨hptr, hrecord⟩ := h.own d b id hold
      exact ⟨(Function.update_of_ne (position_lt hlt).ne _ _).trans hptr, hrecord⟩
  · intro b hb
    rcases eq_or_ne b a with rfl | hne
    · exact List.mem_cons_self
    · exact List.mem_cons_of_mem _ (h.only b (by rwa [← Function.update_of_ne hne _ s.heap]))

/-- What is left of the list, and nothing else is allocated. -/
structure Left (s : Mem) (cells : List (ℕ × TimerId)) : Prop where
  linked : Linked s.heap s.devList cells
  only : ∀ a, s.heap a ≠ none → a ∈ cells.map Prod.fst

/-- A round frees the first container that is left. -/
theorem Left.freeContainer (h : Left s ((a, id) :: cells)) :
    ∃ next, s.heap a = some ⟨id, next⟩ ∧ s.devList = some a ∧
      s.freeContainer =
        .ok (some { s with devList := next, heap := Function.update s.heap a none }) ∧
      Left { s with devList := next, heap := Function.update s.heap a none } cells := by
  obtain ⟨hhead, next, hnode, hrest⟩ := h.linked.pop
  refine ⟨next, hnode, hhead, ?_, hrest, fun b hb => ?_⟩
  · simp only [Mem.freeContainer, hhead, hnode]
  · have hne : b ≠ a := by
      rintro rfl
      exact hb (Function.update_self ..)
    have hmem := h.only b (by rwa [← Function.update_of_ne hne none s.heap])
    exact (List.mem_cons.mp hmem).resolve_left hne

/-- At the end of the list no container is left. -/
theorem Left.nil (h : Left s []) : s.freeContainer = .ok none ∧ s.heap = fun _ => none := by
  have hnull : s.devList = none := linked_nil_iff.mp h.linked
  refine ⟨by simp only [Mem.freeContainer, hnull], funext fun a => ?_⟩
  by_contra hnode
  cases h.only a hnode

/-! ## After the end of the threads -/

/-- A device that has detached stays so. -/
theorem Local.Step.ended {l l' : Local} (h : l.Step l') (hd : l.device.pc = .ended) :
    l'.device.pc = .ended := by
  cases h with
  | statement h =>
    dsimp only at hd
    rw [Device.statement, hd] at h
    cases h
  | signal =>
    dsimp only [Device.signalTimerCond] at hd ⊢
    rw [hd]
    rfl
  | nextSlot hw | detachEvent hw | wakeDevice hw => cases hw.symm.trans hd
  | _ => exact hd

theorem step_ended {a : Act} (h : Timer.step n t a = some t') (hd : d < n)
    (hended : (t.device d).pc = .ended) : (t'.device d).pc = .ended := by
  rcases step_local h hd with heq | hl
  · rw [show t'.device d = t.device d from congrArg Local.device heq]
    exact hended
  · exact hl.ended hended

/-- Behind the loop of the timer the mutexes of a device that has detached are free. -/
theorem unlocked (hs : (system n).Reachable t) (hd : d < n) (hexited : t.pc = .exited)
    (hended : (t.device d).pc = .ended) :
    (t.device d).eventLock = none ∧ (t.device d).timerLock = none := by
  have hlocal := localInv_of_reachable hs hd
  have haway : t.view d = .away := by
    unfold State.view
    rw [hexited]
    split
    · rfl
    · split <;> rfl
  rw [haway] at hlocal
  refine ⟨?_, ?_⟩
  · rw [hlocal.eventLock, hended]
    rfl
  · rw [hlocal.timerLock, hended]
    rfl

/-- Where all have ended nothing moves any more. -/
theorem step_of_ended {a : Act} (hexited : s.pc = .exited)
    (hended : ∀ i < n, s.thread i = .ended) (ha : a.within n) : s.step a = .ok none := by
  cases a with
  | timer => simp only [Mem.step, Mem.timerRoutine, hexited]
  | device i => simp [Mem.step, Mem.deviceRoutine, hended i ha, DevicePc.inCall]
  | nextSlot i | detachEvent i | wakeDevice i => simp [Mem.step, hended i ha]
  | wakeTimer => simp [Mem.step, hexited]
  | stopTimer => exact ha.elim

end Timer

end SimpleOs
