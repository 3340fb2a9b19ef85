import SimpleOs.SlotBarrier

/-!
# The progress of the timer

In every slot the timer waits for the devices and the devices wait for the timer.
`State.toGo` measures how far they are from rest: the statements of the slot and of
the calls under way, and a whole slot for every call of `next_slot` the timer has
not counted yet. A slot in which every device has detached is the last one.

Results:
1. `step_toGo`: every statement of the timer, or of a device inside its call, lowers
   the measure, and every other step adds no more than its gain.
2. `statements_le_toGo`: as long as no device makes a new call, only so many
   statements are left, but for those a spurious wake-up costs.
-/

namespace SimpleOs

namespace Timer

/-! ## The phases of a device -/

/-- The device is inside `detach_event` or past it. -/
def DevicePc.inDetach : DevicePc → Bool
  | .detachLock | .setFsh | .detachSignal | .detachUnlock | .ended => true
  | _ => false

/-- A step of a device inside `next_slot` or `detach_event`, seen from outside:
it stays there, or the call of `next_slot` returns. -/
inductive DevicePc.Phase : DevicePc → DevicePc → Prop
  | same {pc : DevicePc} : Phase pc pc
  | inside {pc pc' : DevicePc} : pc.inNextSlot = true → pc'.inNextSlot = true → Phase pc pc'
  | returns {pc : DevicePc} : pc.inNextSlot = true → Phase pc .working
  | detaching {pc pc' : DevicePc} : pc.inDetach = true → pc'.inDetach = true → Phase pc pc'

theorem statement_phase {t t' : Device} (h : t.statement = some t') :
    DevicePc.Phase t.pc t'.pc := by
  cases statement_cases h with
  | unlockTimer => exact .returns rfl
  | lockEvent | setDone | signalEvent | unlockEvent | lockTimer | relock | wait | leave =>
    exact .inside rfl rfl
  | detachLock | setFsh | detachSignal | detachUnlock => exact .detaching rfl rfl

theorem timerRoutine_phase {n : ℕ} {s s' : State} (h : timerRoutine n s = some s') (d : ℕ) :
    DevicePc.Phase (s.device d).pc (s'.device d).pc := by
  have hset : ∀ t : Device, DevicePc.Phase (s.device s.temp).pc t.pc →
      DevicePc.Phase (s.device d).pc ((s.setDevice s.temp t).device d).pc := by
    intro t ht
    rw [setDevice_device]
    split
    · next hd =>
      rw [hd]
      exact ht
    · exact .same
  cases timerRoutine_move h with
  | lockEvent | sleep | unlockEvent | lockTimer | clearDone | unlockTimer => exact hset _ .same
  | signalTimer =>
    refine hset _ ?_
    unfold Device.signalTimerCond
    dsimp only
    split
    · next hasleep =>
      rw [hasleep]
      exact .inside rfl rfl
    · exact .same
  | _ => exact .same

theorem step_phase {n : ℕ} {s s' : State} {a : Act} (h : step n s a = some s')
    (ha : a.isCall = false) (d : ℕ) : DevicePc.Phase (s.device d).pc (s'.device d).pc := by
  cases a with
  | timer => exact timerRoutine_phase h d
  | device e =>
    obtain ⟨_, h⟩ := Option.ite_none_right_eq_some.mp h
    simp only [deviceRoutine, Option.map_eq_some_iff] at h
    obtain ⟨t, ht, rfl⟩ := h
    rw [setDevice_device]
    split
    · next hd =>
      subst hd
      exact statement_phase ht
    · split
      · rw [signalEventCond_device]
        exact .same
      · exact .same
  | wakeDevice e =>
    obtain ⟨⟨_, hw⟩, h⟩ := Option.ite_none_right_eq_some.mp h
    cases h
    rw [setDevice_device]
    split
    · next hd =>
      subst hd
      rw [hw]
      exact .inside rfl rfl
    · exact .same
  | wakeTimer | stopTimer =>
    obtain ⟨_, h⟩ := Option.ite_none_right_eq_some.mp h
    cases h
    exact .same
  | nextSlot e | detachEvent e => cases ha

/-- A working device makes the call it is at. -/
theorem step_call {n : ℕ} {s s' : State} {a : Act} {d : ℕ} {pc : DevicePc}
    (ha : a = .nextSlot d ∧ pc = .lockEvent ∨ a = .detachEvent d ∧ pc = .detachLock)
    (h : step n s a = some s') :
    d < n ∧ (s.device d).pc = .working ∧ s' = s.setDevice d { s.device d with pc := pc } := by
  rcases ha with ⟨rfl, rfl⟩ | ⟨rfl, rfl⟩
  all_goals
    obtain ⟨⟨hd, hw⟩, h⟩ := Option.ite_none_right_eq_some.mp h
    cases h
    exact ⟨hd, hw, rfl⟩

/-- A device that waits for the tick of its slot is inside `next_slot`. -/
theorem inNextSlot_of_beforeTick {n : ℕ} {s : State} (hs : (system n).Reachable s) {d : ℕ}
    (hd : d < n) (h : (s.toLocal d).beforeTick) : (s.device d).pc.inNextSlot = true := by
  rcases h with hp | hp | ⟨hdone, -⟩
  · rw [show (s.device d).pc = _ from hp]
    rfl
  · rw [show (s.device d).pc = _ from hp]
    rfl
  · rcases (localInv_of_reachable hs hd).done_pc hdone with hp | hp | hp
    · rw [hp]
      rfl
    · rw [hp]
      rfl
    · cases hpc : (s.device d).pc <;> simp [hpc, DevicePc.waiting] at hp <;> rfl

/-- The wait for the tick ends only with `_time++`. -/
theorem incTime_of_beforeTick {n : ℕ} {s s' : State} {a : Act} (hs : (system n).Reachable s)
    (h : step n s a = some s') {d : ℕ} (hd : d < n) (hb : (s.toLocal d).beforeTick)
    (hn : ¬ (s'.toLocal d).beforeTick) : s.pc = .incTime := by
  rcases step_local h hd with heq | hl
  · rw [heq] at hn
    exact absurd hb hn
  · have hc : CalledAt s.time (s.toLocal d) := ⟨fun _ => rfl, fun hnb => absurd hb hnb⟩
    have hc' := hc.step hl (localInv_of_reachable hs hd) (inNextSlot_of_beforeTick hs hd hb)
    have htime : s'.time = s.time + 1 := hc'.after hn
    exact incTime_of_time_ne h (by simp [htime])

/-! ## The measure -/

/-- How far a device thread is from the end of its call. A statement that may wake
the timer pays two more for it. -/
def DevicePc.toGo : DevicePc → ℕ
  | .working | .ended => 0
  | .unlockTimer => 1
  | .asleep => 2
  | .whileDone => 3
  | .lockTimer | .woken => 4
  | .unlockEvent => 5
  | .signalEvent => 8
  | .setDone => 9
  | .lockEvent => 10
  | .detachUnlock => 1
  | .detachSignal => 4
  | .setFsh => 5
  | .detachLock => 6

/-- How far the timer is from the end of its slot, with `m` devices from the cursor
on. The statement that may wake a device pays two more for it. -/
def TimerPc.toGo (n m : ℕ) : TimerPc → ℕ
  | .exited => 0
  | .breakTest => 1
  | .forTimer => 7 * m + 2
  | .lockTimer => 7 * m + 1
  | .clearDone => 7 * m
  | .signalTimer => 7 * m - 1
  | .unlockTimer => 7 * m - 4
  | .incTime => 7 * n + 3
  | .forEvent => 7 * n + 7 * m + 4
  | .lockEvent => 7 * n + 7 * m + 3
  | .woken => 7 * n + 7 * m + 2
  | .whileDone => 7 * n + 7 * m + 1
  | .asleep => 7 * n + 7 * m
  | .countFsh => 7 * n + 7 * m - 1
  | .unlockEvent => 7 * n + 7 * m - 2
  | .whileStop => 14 * n + 5

/-- The statements of one slot. -/
def slotLength (n : ℕ) : ℕ :=
  14 * n + 5

/-- The device is in a call of `next_slot` that the timer has not counted. -/
def Local.due (l : Local) : ℕ :=
  if l.device.pc = .lockEvent ∨ l.device.pc = .setDone ∨
    l.device.done = true ∧ l.view.isCounted = false then 1 else 0

/-- The timer has counted a device that has not detached: there will be another slot. -/
def State.goesOn (s : State) : ℕ :=
  if s.pc.inLoop = true ∧
    (s.fsh < s.event ∨ s.pc = .countFsh ∧ (s.device s.temp).fsh = false) then 1 else 0

/-- The slots that the calls made so far can still fill. -/
def State.slots (n : ℕ) (s : State) : ℕ :=
  ∑ d ∈ Finset.range n, (s.toLocal d).due + s.goesOn

/-- The measure: it falls with every statement of the timer or of a device. -/
def State.toGo (n : ℕ) (s : State) : ℕ :=
  slotLength n * s.slots n + s.pc.toGo n (n - s.temp) +
    ∑ d ∈ Finset.range n, (s.device d).pc.toGo

/-! ## The calls that are due -/

theorem due_le_one (l : Local) : l.due ≤ 1 := by
  unfold Local.due
  split
  · exact le_rfl
  · exact Nat.zero_le 1

theorem due_le_of {l l' : Local}
    (h : l'.device.pc = .lockEvent ∨ l'.device.pc = .setDone ∨
        l'.device.done = true ∧ l'.view.isCounted = false →
      l.device.pc = .lockEvent ∨ l.device.pc = .setDone ∨
        l.device.done = true ∧ l.view.isCounted = false) : l'.due ≤ l.due := by
  unfold Local.due
  split
  · next hdue =>
    rw [if_pos (h hdue)]
  · exact Nat.zero_le _

/-- A statement of the device makes no call due. -/
theorem Device.Statement.due_le {t t' : Device} (h : t.Statement t') {τ : BitVec 64} {v v' : View}
    (hv : v'.isCounted = v.isCounted) : Local.due ⟨τ, v', t'⟩ ≤ Local.due ⟨τ, v, t⟩ := by
  refine due_le_of ?_
  dsimp only
  rw [hv]
  cases h with
  | lockEvent => exact fun _ => .inl rfl
  | setDone => exact fun _ => .inr (.inl rfl)
  | _ =>
    rintro (hpc | hpc | hdone)
    · cases hpc
    · cases hpc
    · exact .inr (.inr hdone)

theorem pc_of_signalTimerCond {t : Device} {pc : DevicePc} (h : t.signalTimerCond.pc = pc)
    (hpc : pc ≠ .woken) : t.pc = pc := by
  unfold Device.signalTimerCond at h
  dsimp only at h
  split at h
  · exact absurd h.symm hpc
  · exact h

/-- No step but the call of `next_slot` makes a call due. -/
theorem Local.Step.due_le {l l' : Local} (h : l.Step l')
    (hcall : l.device.pc = .working → l'.device.pc ≠ .lockEvent) : l'.due ≤ l.due := by
  cases h with
  | statement hst =>
    refine (statement_cases hst).due_le ?_
    split
    · exact signalled_isCounted _
    · rfl
  | nextSlot hw => exact absurd rfl (hcall hw)
  | lockEvent | sleep | wake | unlockTimer => exact due_le_of id
  | count | unlockEvent | tick | lockTimer =>
    exact due_le_of (Or.imp_right (Or.imp_right fun h => absurd h.2 nofun))
  | clear => exact due_le_of (Or.imp_right (Or.imp_right fun h => absurd h.1 nofun))
  | @signal τ t =>
    refine due_le_of ?_
    rintro (hpc | hpc | hdone)
    · exact .inl (pc_of_signalTimerCond hpc nofun)
    · exact .inr (.inl (pc_of_signalTimerCond hpc nofun))
    · exact .inr (.inr hdone)
  | detachEvent hw | wakeDevice hw =>
    refine due_le_of ?_
    rintro (hpc | hpc | hdone)
    · cases hpc
    · cases hpc
    · exact .inr (.inr hdone)

theorem step_due_le {n : ℕ} {s s' : State} {a : Act} (h : step n s a = some s') {d : ℕ}
    (hd : d < n) (hcall : (s.device d).pc = .working → (s'.device d).pc ≠ .lockEvent) :
    (s'.toLocal d).due ≤ (s.toLocal d).due := by
  rcases step_local h hd with heq | hl
  · rw [heq]
  · exact hl.due_le hcall

theorem not_called {n : ℕ} {s s' : State} {a : Act} (h : step n s a = some s')
    (ha : a.isCall = false) (d : ℕ) (hw : (s.device d).pc = .working) :
    (s'.device d).pc ≠ .lockEvent := by
  intro hpc
  have hphase := step_phase h ha d
  rw [hw, hpc] at hphase
  cases hphase with
  | inside hin | detaching hin => cases hin

theorem sum_due_le {n : ℕ} {s s' : State} {a : Act} (h : step n s a = some s')
    (hcall : ∀ d, (s.device d).pc = .working → (s'.device d).pc ≠ .lockEvent) :
    ∑ d ∈ Finset.range n, (s'.toLocal d).due ≤ ∑ d ∈ Finset.range n, (s.toLocal d).due :=
  Finset.sum_le_sum fun d hd => step_due_le h (Finset.mem_range.mp hd) (hcall d)

/-! ## The timer -/

/-- What a new record of device `e` does to the sum over the devices. -/
theorem sum_setDevice_toGo {n e : ℕ} (he : e < n) (s : State) (t : Device) :
    ∑ d ∈ Finset.range n, ((s.setDevice e t).device d).pc.toGo + (s.device e).pc.toGo =
      ∑ d ∈ Finset.range n, (s.device d).pc.toGo + t.pc.toGo := by
  rw [← Lts.sum_update_add (f := fun d => (s.device d).pc.toGo) he]
  refine congrArg (· + (s.device e).pc.toGo) (Finset.sum_congr rfl fun d _ => ?_)
  rw [setDevice_device, Function.update_apply]
  split <;> rfl

/-- A statement of the timer leaves the devices where they are, but for the sleeper
it may wake. -/
theorem TimerMove.device_toGo {n : ℕ} {s s' : State} (hm : TimerMove n s s')
    (hbody : s.pc.inBody = true → s.temp < n) :
    ∑ d ∈ Finset.range n, (s'.device d).pc.toGo ≤
      ∑ d ∈ Finset.range n, (s.device d).pc.toGo + if s.pc = .signalTimer then 2 else 0 := by
  have hset : ∀ t : Device, t.pc = (s.device s.temp).pc → s.temp < n →
      ∑ d ∈ Finset.range n, ((s.setDevice s.temp t).device d).pc.toGo ≤
        ∑ d ∈ Finset.range n, (s.device d).pc.toGo + if s.pc = .signalTimer then 2 else 0 := by
    intro t ht hlt
    have hsum := sum_setDevice_toGo hlt s t
    rw [ht] at hsum
    omega
  cases hm with
  | lockEvent hpc =>
    exact hset _ rfl (hbody (by rcases hpc with hpc | hpc <;> rw [hpc] <;> rfl))
  | sleep hpc | unlockEvent hpc | lockTimer hpc | clearDone hpc | unlockTimer hpc =>
    exact hset _ rfl (hbody (by rw [hpc]; rfl))
  | signalTimer hpc =>
    have hsum := sum_setDevice_toGo (hbody (by rw [hpc]; rfl)) s (s.device s.temp).signalTimerCond
    have hwake : (s.device s.temp).signalTimerCond.pc.toGo ≤ (s.device s.temp).pc.toGo + 2 := by
      unfold Device.signalTimerCond
      dsimp only
      split
      · next hasleep =>
        rw [hasleep]
        exact le_rfl
      · exact Nat.le_add_right _ _
    rw [if_pos hpc]
    show ∑ d ∈ Finset.range n, ((s.setDevice s.temp _).device d).pc.toGo ≤ _
    omega
  | _ => exact Nat.le_add_right _ _

/-- Within a slot the timer moves on. -/
theorem TimerMove.pc_toGo {n : ℕ} {s s' : State} (hm : TimerMove n s s')
    (hbody : s.pc.inBody = true → s.temp < n)
    (hslot : s.pc = .breakTest → s'.pc ≠ .whileStop) :
    s'.pc.toGo n (n - s'.temp) + (if s.pc = .signalTimer then 2 else 0) <
      s.pc.toGo n (n - s.temp) := by
  cases hm with
  | again hpc => exact absurd rfl (hslot hpc)
  | lockEvent hpc =>
    rcases hpc with hpc | hpc
    · rw [hpc]
      simp only [TimerPc.toGo, reduceCtorEq, if_false, setDevice_temp]
      omega
    · rw [hpc]
      simp only [TimerPc.toGo, reduceCtorEq, if_false, setDevice_temp]
      omega
  | stopped hpc | newSlot hpc | nextEvent hpc | allEvents hpc | sleep hpc | raised hpc
  | countFsh hpc | unlockEvent hpc | incTime hpc | nextTimer hpc | allTimers hpc
  | lockTimer hpc | clearDone hpc | signalTimer hpc | unlockTimer hpc | allEnded hpc =>
    rw [hpc] at hbody ⊢
    simp only [TimerPc.toGo, TimerPc.inBody, reduceCtorEq, if_false, if_true, setDevice_temp,
      false_implies, true_implies] at hbody ⊢
    omega

theorem goesOn_le_one (s : State) : s.goesOn ≤ 1 := by
  unfold State.goesOn
  split
  · exact le_rfl
  · exact Nat.zero_le 1

theorem goesOn_le_of {s s' : State}
    (h : s'.pc.inLoop = true →
      s'.fsh < s'.event ∨ s'.pc = .countFsh ∧ (s'.device s'.temp).fsh = false →
      s.pc.inLoop = true ∧
        (s.fsh < s.event ∨ s.pc = .countFsh ∧ (s.device s.temp).fsh = false)) :
    s'.goesOn ≤ s.goesOn := by
  unfold State.goesOn
  split
  · next hon =>
    rw [if_pos (h hon.1 hon.2)]
  · exact Nat.zero_le _

/-- The device at the cursor is counted with its flag `done` raised. -/
theorem due_raised {n : ℕ} {s : State} (hs : (system n).Reachable s) (hpc : s.pc = .whileDone)
    (hdone : (s.device s.temp).done = true) :
    (State.toLocal { s with pc := .countFsh } s.temp).due < (s.toLocal s.temp).due := by
  have htemp := (countInv_of_reachable hs).temp_lt (by rw [hpc]; rfl)
  have hi := localInv_of_reachable hs htemp
  have hview : (s.view s.temp).isCounted = false := by
    simp [State.view, hpc, TimerPc.here, View.isCounted]
  have hview' : (State.view { s with pc := .countFsh } s.temp).isCounted = true := by
    simp [State.view, TimerPc.here, View.isCounted]
  have hnot : (s.device s.temp).pc ≠ .lockEvent ∧ (s.device s.temp).pc ≠ .setDone := by
    rcases hi.done_pc hdone with hp | hp | hp
    · simp [hp]
    · simp [hp]
    · refine ⟨fun h => ?_, fun h => ?_⟩
      · rw [h] at hp
        cases hp
      · rw [h] at hp
        cases hp
  have hbefore : (s.toLocal s.temp).due = 1 := if_pos (.inr (.inr ⟨hdone, hview⟩))
  have hafter : (State.toLocal { s with pc := .countFsh } s.temp).due = 0 := by
    refine if_neg ?_
    rintro (h | h | ⟨-, h⟩)
    · exact hnot.1 h
    · exact hnot.2 h
    · cases hview'.symm.trans h
  rw [hbefore, hafter]
  exact Nat.one_pos

/-- No statement of the timer adds a slot, and the end of a slot takes one off. -/
theorem TimerMove.slots_le {n : ℕ} {s s' : State} (hm : TimerMove n s s')
    (hs : (system n).Reachable s) (hst : step n s .timer = some s') :
    s'.slots n ≤ s.slots n ∧
      (s.pc = .breakTest → s'.pc = .whileStop → s'.slots n < s.slots n) := by
  have hdue := sum_due_le hst (not_called hst rfl)
  have hcount := countInv_of_reachable hs
  have hstay : s.pc.inLoop = true → s'.fsh = s.fsh → s'.event = s.event → s'.pc ≠ .countFsh →
      s'.goesOn ≤ s.goesOn := by
    intro hloop hfsh hevent hpc
    refine goesOn_le_of fun _ hon => ⟨hloop, .inl ?_⟩
    rw [← hfsh, ← hevent]
    exact hon.resolve_right fun h => hpc h.1
  unfold State.slots
  cases hm with
  | stopped | allEnded =>
    exact ⟨Nat.add_le_add hdue (goesOn_le_of fun hloop => absurd hloop nofun), nofun⟩
  | newSlot =>
    refine ⟨Nat.add_le_add hdue (goesOn_le_of fun _ hon => ?_), nofun⟩
    rcases hon with hlt | ⟨hpc, -⟩
    · exact absurd hlt (Nat.lt_irrefl 0)
    · cases hpc
  | raised hpc hraised =>
    refine ⟨?_, nofun⟩
    cases hfsh : (s.device s.temp).fsh with
    | true =>
      refine Nat.add_le_add hdue (goesOn_le_of fun _ hon => ⟨by rw [hpc]; rfl, .inl ?_⟩)
      refine hon.resolve_right fun h => ?_
      rw [show (s.device s.temp).fsh = false from h.2] at hfsh
      cases hfsh
    | false =>
      -- The device has only raised `done`: its call is counted here.
      have hdone : (s.device s.temp).done = true := hraised.resolve_right (by simp [hfsh])
      have htemp : s.temp ∈ Finset.range n :=
        Finset.mem_range.mpr (hcount.temp_lt (by rw [hpc]; rfl))
      have hless := Finset.sum_lt_sum
        (fun d hd => step_due_le hst (Finset.mem_range.mp hd) (not_called hst rfl d))
        ⟨s.temp, htemp, due_raised hs hpc hdone⟩
      have hone := goesOn_le_one { s with pc := .countFsh }
      omega
  | countFsh hpc =>
    refine ⟨Nat.add_le_add hdue (goesOn_le_of fun _ hon => ⟨by rw [hpc]; rfl, ?_⟩), nofun⟩
    have hlt : (if (s.device s.temp).fsh then s.fsh + 1 else s.fsh) < s.event + 1 :=
      hon.resolve_right fun h => nomatch h.1
    cases hfsh : (s.device s.temp).fsh with
    | true =>
      rw [hfsh, if_pos rfl] at hlt
      exact .inl (Nat.lt_of_succ_lt_succ hlt)
    | false => exact .inr ⟨hpc, rfl⟩
  | again hpc hne =>
    have hon : s.goesOn = 1 :=
      if_pos ⟨by rw [hpc]; rfl, .inl (Nat.lt_of_le_of_ne hcount.fsh_le hne)⟩
    have hoff : State.goesOn { s with pc := .whileStop } = 0 := if_neg fun h => absurd h.1 nofun
    rw [hon, hoff]
    exact ⟨Nat.le_succ_of_le hdue, fun _ _ => Nat.lt_succ_of_le hdue⟩
  | lockEvent hpc =>
    refine ⟨Nat.add_le_add hdue (hstay ?_ rfl rfl nofun), nofun⟩
    rcases hpc with hpc | hpc <;> rw [hpc] <;> rfl
  | nextEvent hpc | allEvents hpc | sleep hpc | unlockEvent hpc | incTime hpc | nextTimer hpc
  | allTimers hpc | lockTimer hpc | clearDone hpc | signalTimer hpc | unlockTimer hpc =>
    exact ⟨Nat.add_le_add hdue (hstay (by rw [hpc]; rfl) rfl rfl nofun), nofun⟩

/-- Every statement of the timer brings it closer to the end of its slot, or begins
a slot that a call has been counted for. -/
theorem TimerMove.toGo_lt {n : ℕ} {s s' : State} (hm : TimerMove n s s')
    (hs : (system n).Reachable s) (hst : step n s .timer = some s') : s'.toGo n < s.toGo n := by
  have hbody := (countInv_of_reachable hs).temp_lt
  have hdevice := hm.device_toGo hbody
  obtain ⟨hslots, hagain⟩ := hm.slots_le hs hst
  have hmul := Nat.mul_le_mul_left (slotLength n) hslots
  unfold State.toGo
  by_cases hslot : s.pc = .breakTest ∧ s'.pc = .whileStop
  · obtain ⟨hpc, hpc'⟩ := hslot
    have hless := Nat.mul_le_mul_left (slotLength n) (hagain hpc hpc')
    rw [Nat.mul_succ] at hless
    rw [hpc] at hdevice
    rw [hpc, hpc']
    simp only [TimerPc.toGo, slotLength, reduceCtorEq, if_false] at hless hdevice ⊢
    omega
  · have hpos := hm.pc_toGo hbody fun hpc hpc' => hslot ⟨hpc, hpc'⟩
    omega

/-! ## The devices and the calls -/

/-- A statement of a device brings it closer to the end of its call. -/
theorem Device.Statement.toGo_lt {t t' : Device} (h : t.Statement t') :
    t'.pc.toGo + (if t.pc.signals then 3 else 1) ≤ t.pc.toGo := by
  cases h <;> simp [DevicePc.toGo, DevicePc.signals]

/-- A step that leaves the local variables of the timer alone adds no slot to those
of the calls. -/
theorem goesOn_frame {n : ℕ} {s s' : State} {a : Act} (hs : (system n).Reachable s)
    (hst : step n s a = some s') (htemp : s'.temp = s.temp) (hfsh : s'.fsh = s.fsh)
    (hevent : s'.event = s.event)
    (hpc : s'.pc = s.pc ∨ s.pc = .asleep ∧ s'.pc = .woken) : s'.goesOn ≤ s.goesOn := by
  refine goesOn_le_of fun hloop hon => ?_
  rw [hfsh, hevent, htemp] at hon
  rcases hpc with hpc | ⟨hpc, hpc'⟩
  · rw [hpc] at hloop hon
    refine ⟨hloop, hon.imp_right fun h => ⟨h.1, ?_⟩⟩
    have hlt := (countInv_of_reachable hs).temp_lt (by rw [h.1]; rfl)
    cases hdevice : (s.device s.temp).fsh with
    | false => rfl
    | true => exact absurd h.2 (by rw [step_fsh hst hlt hdevice]; nofun)
  · rw [hpc'] at hon
    exact ⟨by rw [hpc]; rfl, .inl (hon.resolve_right fun h => nomatch h.1)⟩

/-- A signal to the timer costs what the device has paid for it. -/
theorem signalEventCond_toGo (n : ℕ) (s : State) (d : ℕ) :
    (signalEventCond s d).pc.toGo n (n - (signalEventCond s d).temp) ≤
      s.pc.toGo n (n - s.temp) + 2 := by
  unfold signalEventCond
  split
  · next hasleep =>
    rw [hasleep.1]
    exact le_rfl
  · exact Nat.le_add_right _ _

/-- What a step may add to the measure. -/
def Act.gain (n : ℕ) : Act → ℕ
  | .nextSlot _ => slotLength n + 10
  | .detachEvent _ => 6
  | .wakeTimer | .wakeDevice _ => 2
  | .timer | .device _ | .stopTimer => 0

theorem gain_of_not_call {n : ℕ} {a : Act} (ha : a.isCall = false) :
    a.gain n = if a.spurious then 2 else 0 := by
  cases a with
  | nextSlot d | detachEvent d => cases ha
  | _ => rfl

/-- The step is a statement of the timer or of a device inside its call. -/
def Act.isStatement : Act → Bool
  | .timer | .device _ => true
  | _ => false

theorem frame_slots {n : ℕ} {s s' : State} {a : Act} (hs : (system n).Reachable s)
    (hst : step n s a = some s') (htemp : s'.temp = s.temp) (hfsh : s'.fsh = s.fsh)
    (hevent : s'.event = s.event) (hpc : s'.pc = s.pc ∨ s.pc = .asleep ∧ s'.pc = .woken)
    (hcall : ∀ d, (s.device d).pc = .working → (s'.device d).pc ≠ .lockEvent) :
    slotLength n * s'.slots n ≤ slotLength n * s.slots n :=
  Nat.mul_le_mul_left _
    (Nat.add_le_add (sum_due_le hst hcall) (goesOn_frame hs hst htemp hfsh hevent hpc))

theorem deviceRoutine_toGo {n : ℕ} {s s' : State} {d : ℕ} (hs : (system n).Reachable s)
    (hst : step n s (.device d) = some s') : s'.toGo n < s.toGo n := by
  have hcall := not_called hst rfl
  obtain ⟨hd, h⟩ := Option.ite_none_right_eq_some.mp hst
  simp only [deviceRoutine, Option.map_eq_some_iff] at h
  obtain ⟨t, ht, rfl⟩ := h
  have hdevice := (statement_cases ht).toGo_lt
  unfold State.toGo
  split at hdevice
  · next hsig =>
    rw [if_pos hsig] at hst hcall ⊢
    obtain ⟨htemp, hfsh, hevent, -, hpc⟩ := signalEventCond_frame s d
    have hslots := frame_slots hs hst htemp hfsh hevent hpc hcall
    have hpos := signalEventCond_toGo n s d
    have hsum := sum_setDevice_toGo hd (signalEventCond s d) t
    rw [signalEventCond_device] at hsum
    rw [setDevice_pc, setDevice_temp]
    omega
  · next hsig =>
    rw [if_neg hsig] at hst hcall ⊢
    have hslots := frame_slots hs hst rfl rfl rfl (.inl rfl) hcall
    have hsum := sum_setDevice_toGo hd s t
    rw [setDevice_pc, setDevice_temp]
    omega

/-- A new position of a device that makes no call due. -/
theorem setDevice_toGo {n : ℕ} {s : State} {a : Act} {d : ℕ} {pc : DevicePc}
    (hs : (system n).Reachable s) (hd : d < n)
    (hst : step n s a = some (s.setDevice d { s.device d with pc := pc })) (hpc : pc ≠ .lockEvent) :
    (s.setDevice d { s.device d with pc := pc }).toGo n + (s.device d).pc.toGo ≤
      s.toGo n + pc.toGo := by
  have hcall : ∀ e, (s.device e).pc = .working →
      ((s.setDevice d { s.device d with pc := pc }).device e).pc ≠ .lockEvent := by
    intro e hw
    rw [setDevice_device]
    split
    · exact hpc
    · rw [hw]
      nofun
  have hslots := frame_slots hs hst rfl rfl rfl (.inl rfl) hcall
  have hsum : _ = _ + pc.toGo := sum_setDevice_toGo hd s { s.device d with pc := pc }
  unfold State.toGo
  rw [setDevice_pc, setDevice_temp]
  omega

/-- The call of `next_slot` is due. -/
theorem nextSlot_toGo {n : ℕ} {s : State} {d : ℕ} (hs : (system n).Reachable s) (hd : d < n)
    (hst : step n s (.nextSlot d) = some (s.setDevice d { s.device d with pc := .lockEvent })) :
    (s.setDevice d { s.device d with pc := .lockEvent }).toGo n ≤
      s.toGo n + (slotLength n + 10) := by
  have hdue : ∑ e ∈ Finset.range n,
      ((s.setDevice d { s.device d with pc := .lockEvent }).toLocal e).due ≤
        ∑ e ∈ Finset.range n, (s.toLocal e).due + 1 := by
    rw [← Lts.sum_update_add (f := fun e => (s.toLocal e).due) hd 1]
    refine le_trans (Finset.sum_le_sum fun e _ => ?_) (Nat.le_add_right _ _)
    rw [Function.update_apply]
    split
    · exact due_le_one _
    · next he =>
      refine (congrArg Local.due ?_).le
      simp [State.toLocal, view_setDevice, he]
  have hon := goesOn_frame hs hst rfl rfl rfl (.inl rfl)
  have hslots := Nat.mul_le_mul_left (slotLength n) (Nat.add_le_add hdue hon)
  rw [Nat.add_right_comm, Nat.mul_succ] at hslots
  have hsum : _ = _ + 10 := sum_setDevice_toGo hd s { s.device d with pc := .lockEvent }
  unfold State.toGo State.slots
  rw [setDevice_pc, setDevice_temp]
  omega

/-- Every statement lowers the measure, and every other step adds no more than its
gain. -/
theorem step_toGo {n : ℕ} {s s' : State} {a : Act} (hs : (system n).Reachable s)
    (hst : step n s a = some s') :
    s'.toGo n + (if a.isStatement then 1 else 0) ≤ s.toGo n + a.gain n := by
  cases a with
  | timer => exact (timerRoutine_move hst).toGo_lt hs hst
  | device d => exact deviceRoutine_toGo hs hst
  | nextSlot d =>
    obtain ⟨hd, -, rfl⟩ := step_call (.inl ⟨rfl, rfl⟩) hst
    exact nextSlot_toGo hs hd hst
  | detachEvent d =>
    obtain ⟨hd, hw, rfl⟩ := step_call (.inr ⟨rfl, rfl⟩) hst
    have hgo := setDevice_toGo hs hd hst nofun
    rw [hw] at hgo
    exact hgo
  | wakeDevice d =>
    obtain ⟨⟨hd, hasleep⟩, h⟩ := Option.ite_none_right_eq_some.mp hst
    cases h
    have hgo := setDevice_toGo hs hd hst nofun
    rw [hasleep] at hgo
    exact Nat.le_of_add_le_add_right hgo
  | wakeTimer =>
    have hcall := not_called hst rfl
    obtain ⟨hasleep, h⟩ := Option.ite_none_right_eq_some.mp hst
    cases h
    have hslots := frame_slots hs hst rfl rfl rfl (.inr ⟨hasleep, rfl⟩) hcall
    unfold State.toGo
    rw [hasleep]
    simp only [TimerPc.toGo, Act.gain, Act.isStatement, Bool.false_eq_true, if_false]
    omega
  | stopTimer =>
    have hcall := not_called hst rfl
    obtain ⟨-, h⟩ := Option.ite_none_right_eq_some.mp hst
    cases h
    have hslots := frame_slots hs hst rfl rfl rfl (.inl rfl) hcall
    exact Nat.add_le_add_right (Nat.add_le_add_right hslots _) _

/-- As long as no device makes a new call, the statements that are left are bounded. -/
theorem statements_le_toGo {n : ℕ} {s t : State} {tr : List Act} (hs : (system n).Reachable s)
    (hr : ((system n).restrict fun _ a _ => a.isCall = false).Run s tr t) :
    tr.countP Act.isStatement ≤ s.toGo n + 2 * tr.countP Act.spurious := by
  have hcount : (system n).Reachable t ∧ t.toGo n + tr.countP Act.isStatement ≤
      s.toGo n + 2 * tr.countP Act.spurious := by
    refine hr.count_le hs ?_
    rintro t a u ht ⟨hst, hcall⟩
    have hgo := step_toGo ht hst
    rw [gain_of_not_call hcall] at hgo
    exact ⟨ht.step hst, hgo⟩
  exact le_trans (Nat.le_add_left _ _) hcount.2

end Timer

end SimpleOs
