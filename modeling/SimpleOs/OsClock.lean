import SimpleOs.Threads
import SimpleOs.TimerClock

/-!
# The slots of the threads

The clock of a run of the whole system is the clock of its timer: the steps of the
timer, taken out of the run, are a run of the timer with the same ticks.

Results:
1. `run_timer`: the run of the timer in a run of the system; `time_eq`: hence after
   `k` ticks the clock shows `k`.
2. `slotOf_step`: the slot in which a thread works is counted up by its own calls of
   `next_slot` only.
-/

namespace SimpleOs

namespace Os

variable {ι π : Type*} {cfg : Config ι} {Q : ReadyQueue π} {s s' : State π} {lab : Label ι}

/-- The step is the statement `_time++`. -/
def State.ticks (s : State π) : Label ι → Bool
  | .timer a => s.timer.ticks a
  | _ => false

/-- The step of the timer, if it is one. -/
def Label.timerAct : Label ι → Option Timer.Act
  | .timer a => some a
  | _ => none

theorem CpuMove.timerAct {c : ℕ} (hm : CpuMove cfg Q s c lab s') : lab.timerAct = none := by
  cases hm <;> rfl

theorem LoaderMove.timerAct (hm : LoaderMove cfg Q s lab s') : lab.timerAct = none := by
  cases hm <;> rfl

theorem not_ticks (h : lab.timerAct = none) : s.ticks lab = false := by
  cases lab with
  | timer a => cases h
  | _ => rfl

/-- A step is a step of the timer, or leaves the timer alone. -/
theorem step_timer (hst : Step cfg Q s lab s') :
    lab.timerAct = none ∧ s'.timer = s.timer ∨
      ∃ a, lab = .timer a ∧ Timer.step cfg.devices s.timer a = some s'.timer := by
  cases hst with
  | cpu hc hw hget hm =>
    have hmove := cpuRoutine_move hget hm
    exact .inl ⟨hmove.timerAct, hmove.frame.1⟩
  | loader hw hm =>
    have hmove := ldRoutine_move hm
    exact .inl ⟨hmove.timerAct, hmove.frame.2.1⟩
  | cpuCall hc hcall ht => exact .inr ⟨_, rfl, ht⟩
  | loaderCall hcall ht => exact .inr ⟨_, rfl, ht⟩
  | timer ha ht => exact .inr ⟨_, rfl, ht⟩

/-- The run of the timer in a run of the system. -/
theorem run_timer {tr : List (Label ι)} {k : ℕ}
    (hr : ((system cfg Q).counted State.ticks).Run (start Q, 0) tr (s, k)) :
    ((Timer.system cfg.devices).counted Timer.State.ticks).Run (Timer.startTimer, 0)
      (tr.filterMap Label.timerAct) (s.timer, k) := by
  refine hr.trace_invariant (I := fun tr t =>
    ((Timer.system cfg.devices).counted Timer.State.ticks).Run (Timer.startTimer, 0)
      (tr.filterMap Label.timerAct) (t.1.timer, t.2)) .nil ?_
  rintro tr ⟨s, k⟩ lab ⟨s', k'⟩ - ih ⟨hst, hk⟩
  dsimp only at ih hk ⊢
  rw [List.filterMap_append]
  rcases step_timer hst with ⟨hnone, htimer⟩ | ⟨a, rfl, ht⟩
  · rw [List.filterMap_cons_none hnone, List.filterMap_nil, List.append_nil, htimer, hk,
      not_ticks hnone]
    exact ih
  · exact ih.snoc ⟨ht, hk⟩

/-- After `k` ticks the clock shows `k`. -/
theorem time_eq {tr : List (Label ι)} {k : ℕ}
    (hr : ((system cfg Q).counted State.ticks).Run (start Q, 0) tr (s, k)) :
    s.timer.time = BitVec.ofNat 64 k :=
  (Timer.calls_eq (run_timer hr)).1

/-! ## The slot of a thread -/

/-- The slot in which the thread of device `d` works after `k` ticks, or the next one,
where it has called `next_slot` already. -/
def State.slotOf (s : State π) (k d : ℕ) : ℕ :=
  k + (s.timer.toLocal d).ahead

theorem slotOf_bounds (s : State π) (k d : ℕ) : k ≤ s.slotOf k d ∧ s.slotOf k d ≤ k + 1 := by
  refine ⟨Nat.le_add_right _ _, Nat.add_le_add_left ?_ k⟩
  unfold Timer.Local.ahead
  split
  · exact le_rfl
  · exact Nat.zero_le 1

/-- A thread at work works in the slot that the clock shows. -/
theorem slotOf_working {d : ℕ} (ht : Threads cfg s) (hd : d < cfg.devices)
    (hw : (s.timer.device d).pc = .working) (k : ℕ) : s.slotOf k d = k := by
  rw [State.slotOf, Timer.Local.ahead, if_neg (Timer.not_beforeTick ht.timer hd hw), Nat.add_zero]

/-- A thread that has called `detach_event` is in no call of `next_slot`. -/
theorem slotOf_inDetach {d : ℕ} (ht : Threads cfg s) (hd : d < cfg.devices)
    (hin : (s.timer.device d).pc.inDetach = true) (k : ℕ) : s.slotOf k d = k := by
  have hnot : ¬ (s.timer.toLocal d).beforeTick := by
    intro hb
    have hnext := Timer.inNextSlot_of_beforeTick ht.timer hd hb
    cases hpc : (s.timer.device d).pc <;> rw [hpc] at hnext hin <;> cases hnext <;> cases hin
  rw [State.slotOf, Timer.Local.ahead, if_neg hnot, Nat.add_zero]

/-- Outside its calls of `next_slot` the loader works in the slot that the clock shows. -/
theorem slotOf_loader (ht : Threads cfg s)
    (hpc : s.loader.pc ≠ .whileLoad ∧ s.loader.pc ≠ .waitStart) (k : ℕ) :
    s.slotOf k Config.loaderDevice = k := by
  have hnot : ¬ (s.timer.toLocal Config.loaderDevice).beforeTick := by
    intro hb
    have hloader := ht.loader
    rw [LoaderDevice, DeviceOf, if_pos (Timer.inNextSlot_of_beforeTick ht.timer loaderDevice_lt hb)]
      at hloader
    exact hloader.elim hpc.1 hpc.2
  rw [State.slotOf, Timer.Local.ahead, if_neg hnot, Nat.add_zero]

/-- The step is a call of the timer by device `d`. -/
def Label.calls (lab : Label ι) (d : ℕ) : Prop :=
  lab = .timer (.nextSlot d) ∨ lab = .timer (.detachEvent d)

theorem not_calls_of_none (h : lab.timerAct = none) (d : ℕ) : ¬ lab.calls d := by
  rintro (rfl | rfl) <;> cases h

theorem not_calls_of_timer {a : Timer.Act} (ha : a.isCall = false) (d : ℕ) :
    ¬ (Label.timer a : Label ι).calls d := by
  rintro (h | h) <;> cases h <;> cases ha

theorem not_calls_of_cpuCall {pc pc' : CpuPc} {d e : ℕ} {a : Timer.Act}
    (hcall : pc.call d = some (a, pc')) (hne : d ≠ e) : ¬ (Label.timer a : Label ι).calls e := by
  have ha := (CpuPc.call_eq hcall).imp And.left And.left
  rintro (h | h) <;> cases h <;> rcases ha with h | h <;> cases h <;> exact hne rfl

theorem not_calls_of_loaderCall {pc pc' : LoaderPc} {d e : ℕ} {a : Timer.Act}
    (hcall : pc.call d = some (a, pc')) (hne : d ≠ e) : ¬ (Label.timer a : Label ι).calls e := by
  have ha := (LoaderPc.call_eq hcall).imp And.left And.left
  rintro (h | h) <;> cases h <;> rcases ha with h | h <;> cases h <;> exact hne rfl

/-- A thread whose device is inside `detach_event` has ended its loop. -/
theorem DeviceOf.ended {waits ended : Prop} {pc : Timer.DevicePc} (h : DeviceOf waits ended pc)
    (hin : pc.inDetach = true) : ended := by
  cases pc <;> first | exact h | cases hin

/-- Only its own calls of `next_slot` bring a thread into the next slot. -/
theorem slotOf_step {d k : ℕ} (ht : Threads cfg s) (hst : Step cfg Q s lab s')
    (hd : d < cfg.devices) (hcall : ¬ lab.calls d) :
    (s'.timer.device d).pc.inDetach = (s.timer.device d).pc.inDetach ∧
      ((s.timer.device d).pc.inDetach = false →
        s'.slotOf (k + if s.ticks lab then 1 else 0) d = s.slotOf k d) := by
  rcases step_timer hst with ⟨hnone, htimer⟩ | ⟨a, rfl, hstep⟩
  · rw [State.slotOf, State.slotOf, htimer, not_ticks hnone]
    exact ⟨rfl, fun _ => rfl⟩
  · have hslot : a ≠ .nextSlot d := by
      rintro rfl
      exact hcall (.inl rfl)
    have hdetach : a ≠ .detachEvent d := by
      rintro rfl
      exact hcall (.inr rfl)
    refine ⟨Timer.step_inDetach hstep hslot hdetach, fun hin => ?_⟩
    have hahead := Timer.step_beforeTick ht.timer hstep hd hin hslot hdetach
    rw [State.slotOf, State.slotOf, ← hahead, Nat.add_assoc]
    exact congrArg _ (Nat.add_comm _ _)

/-- The call of `next_slot` brings the thread of its device into the next slot. -/
theorem slotOf_nextSlot (s' : State π) {d k : ℕ} (ht : Threads cfg s) {t : Timer.State}
    (hst : Timer.step cfg.devices s.timer (.nextSlot d) = some t) (htimer : s'.timer = t) :
    s.slotOf k d = k ∧ s'.slotOf k d = k + 1 := by
  obtain ⟨hd, hw, rfl⟩ := Timer.step_call (.inl ⟨rfl, rfl⟩) hst
  refine ⟨slotOf_working ht hd hw k, congrArg (k + ·) (if_pos (.inl ?_))⟩
  rw [htimer]
  simp [Timer.State.toLocal]

end Os

end SimpleOs
