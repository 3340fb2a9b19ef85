import SimpleOs.Lib.Ticks
import SimpleOs.TimerProgress

/-!
# The slot of a device

A device works in one slot, calls `next_slot` and works in the next one. So the clock
need not be looked at: a device that has not detached can tell the slot it is in from
its own calls. In a call that the tick of its slot has not reached yet, it is one call
ahead of the clock.

Results:
1. `step_beforeTick`: a device is ahead of the clock from its call up to the tick.
2. `calls_eq`: hence the calls that a device has made and the ticks differ by one at
   most, and all devices that have not detached move in lock step.
-/

namespace SimpleOs

namespace Timer

variable {n : ℕ} {s s' : State} {a : Act} {d : ℕ}

/-- The step is the statement `_time++`. -/
def State.ticks (s : State) (a : Act) : Bool :=
  a = .timer && s.pc = .incTime

theorem ticks_iff : s.ticks a = true ↔ a = .timer ∧ s.pc = .incTime := by
  simp [State.ticks]

instance (l : Local) : Decidable l.beforeTick :=
  inferInstanceAs (Decidable (_ ∨ _ ∨ _))

/-- How far a device is ahead of the clock. -/
def Local.ahead (l : Local) : ℕ :=
  if l.beforeTick then 1 else 0

/-! ## The clock -/

theorem step_time (h : step n s a = some s') :
    s'.time = s.time + if s.ticks a then 1 else 0 := by
  cases a with
  | timer =>
    unfold State.ticks
    cases timerRoutine_move h with
    | incTime hpc => simp [hpc]
    | lockEvent hpc => rcases hpc with hpc | hpc <;> simp [hpc]
    | _ hpc => simp [hpc]
  | device e =>
    obtain ⟨-, h⟩ := Option.ite_none_right_eq_some.mp h
    simp [State.ticks, deviceRoutine_time h]
  | _ =>
    obtain ⟨-, h⟩ := Option.ite_none_right_eq_some.mp h
    cases h
    simp [State.ticks]

/-- A step without a tick leaves the clock alone. -/
theorem time_of_not_ticks (h : step n s a = some s') (htick : s.ticks a = false) :
    s'.time = s.time := by
  rw [step_time h, htick]
  exact BitVec.add_zero _

/-! ## One device -/

/-- A working device is not ahead of the clock. -/
theorem not_beforeTick (hs : (system n).Reachable s) (hd : d < n)
    (hw : (s.device d).pc = .working) : ¬ (s.toLocal d).beforeTick := by
  intro hb
  have hin := inNextSlot_of_beforeTick hs hd hb
  rw [hw] at hin
  cases hin

/-- The tick finds a device that has not detached ahead of the clock. -/
theorem beforeTick_of_incTime (hs : (system n).Reachable s) (hpc : s.pc = .incTime) (hd : d < n)
    (hdetach : (s.device d).pc.inDetach = false) : (s.toLocal d).beforeTick := by
  rcases raised_of_incTime hs hpc hd with ⟨hdone, -⟩ | hfsh
  · refine .inr (.inr ⟨hdone, ?_⟩)
    show (s.view d).afterTick = false
    rw [view_incTime hpc d]
    rfl
  · rw [(localInv_of_reachable hs hd).fsh] at hfsh
    cases hp : (s.device d).pc <;> rw [hp] at hfsh hdetach <;> cases hfsh <;> cases hdetach

theorem inNextSlot_or_working {pc : DevicePc} (h : pc.inDetach = false) :
    pc.inNextSlot = true ∨ pc = .working := by
  cases pc <;> first | exact .inl rfl | exact .inr rfl | cases h

/-- Another party leaves a device as it is, or lets it go on. -/
theorem step_phase_of_not_call (h : step n s a = some s') (hslot : a ≠ .nextSlot d)
    (hdetach : a ≠ .detachEvent d) : DevicePc.Phase (s.device d).pc (s'.device d).pc := by
  cases hcall : a.isCall with
  | false => exact step_phase h hcall d
  | true =>
    have hother : ∀ e pc, d ≠ e → DevicePc.Phase (s.device d).pc
        ((s.setDevice e { s.device e with pc := pc }).device d).pc := by
      intro e pc hde
      rw [setDevice_device, if_neg hde]
      exact .same
    cases a with
    | nextSlot e =>
      obtain ⟨-, -, rfl⟩ := step_call (.inl ⟨rfl, rfl⟩) h
      exact hother e _ fun hde => hslot (congrArg _ hde.symm)
    | detachEvent e =>
      obtain ⟨-, -, rfl⟩ := step_call (.inr ⟨rfl, rfl⟩) h
      exact hother e _ fun hde => hdetach (congrArg _ hde.symm)
    | _ => cases hcall

/-- Without a call of its own a device neither detaches nor starts a call. -/
theorem step_inDetach (h : step n s a = some s') (hslot : a ≠ .nextSlot d)
    (hdetach : a ≠ .detachEvent d) :
    (s'.device d).pc.inDetach = (s.device d).pc.inDetach := by
  have hphase := step_phase_of_not_call h hslot hdetach
  have hin : ∀ pc : DevicePc, pc.inNextSlot = true → pc.inDetach = false := by
    intro pc
    cases pc <;> decide
  generalize (s'.device d).pc = pc', (s.device d).pc = pc at hphase ⊢
  cases hphase with
  | same => rfl
  | inside h₁ h₂ => rw [hin _ h₁, hin _ h₂]
  | returns h₁ => rw [hin _ h₁]; rfl
  | detaching h₁ h₂ => rw [h₁, h₂]

/-- Without a tick, and without a call of its own, a device is as far ahead of the
clock as before. -/
theorem beforeTick_of_not_ticks (hs : (system n).Reachable s) (h : step n s a = some s')
    (hd : d < n) (hin : (s.device d).pc.inDetach = false) (hslot : a ≠ .nextSlot d)
    (hdetach : a ≠ .detachEvent d) (htick : s.ticks a = false) :
    (s'.toLocal d).beforeTick ↔ (s.toLocal d).beforeTick := by
  have htime : s'.time = s.time := time_of_not_ticks h htick
  rcases inNextSlot_or_working hin with hnext | hw
  · -- The clock tells on which side of the tick the call is.
    have hstay : ∀ τ, CalledAt τ (s.toLocal d) → CalledAt τ (s'.toLocal d) := by
      intro τ hc
      rcases step_local h hd with heq | hl
      · rw [heq]
        exact hc
      · exact hc.step hl (localInv_of_reachable hs hd) hnext
    have hne : s.time + 1 ≠ s.time := by simp
    by_cases hb : (s.toLocal d).beforeTick
    · have hc := hstay s.time ⟨fun _ => rfl, fun hnot => absurd hb hnot⟩
      refine iff_of_true ?_ hb
      by_contra hnot
      exact hne ((hc.after hnot).symm.trans htime)
    · have hc := hstay (s.time - 1) ⟨fun hb' => absurd hb' hb, fun _ => by simp [State.toLocal]⟩
      refine iff_of_false (fun hb' => ?_) hb
      have hτ : s'.time = s.time - 1 := hc.before hb'
      rw [htime] at hτ
      have hsub : s.time - 1 + 1 = s.time := by simp
      rw [← hτ] at hsub
      exact hne hsub
  · have hphase := step_phase_of_not_call h hslot hdetach
    rw [hw] at hphase
    have hw' : (s'.device d).pc = .working := by
      generalize (s'.device d).pc = pc at hphase ⊢
      cases hphase with
      | same => rfl
      | inside h₁ => cases h₁
      | returns h₁ => rfl
      | detaching h₁ => cases h₁
    exact iff_of_false (not_beforeTick (hs.step h) hd hw') (not_beforeTick hs hd hw)

/-- A device is ahead of the clock from its call up to the tick. -/
theorem step_beforeTick (hs : (system n).Reachable s) (h : step n s a = some s') (hd : d < n)
    (hin : (s.device d).pc.inDetach = false) (hslot : a ≠ .nextSlot d)
    (hdetach : a ≠ .detachEvent d) :
    (s'.toLocal d).ahead + (if s.ticks a then 1 else 0) = (s.toLocal d).ahead := by
  unfold Local.ahead
  cases htick : s.ticks a with
  | false =>
    rw [if_congr (beforeTick_of_not_ticks hs h hd hin hslot hdetach htick) rfl rfl]
    simp
  | true =>
    obtain ⟨rfl, hpc⟩ := ticks_iff.mp htick
    have hb := beforeTick_of_incTime hs hpc hd hin
    have hnot : ¬ (s'.toLocal d).beforeTick := by
      intro hb'
      have hc : CalledAt s.time (s.toLocal d) := ⟨fun _ => rfl, fun hnot => absurd hb hnot⟩
      have hnext := inNextSlot_of_beforeTick hs hd hb
      have hc' : CalledAt s.time (s'.toLocal d) := by
        rcases step_local h hd with heq | hl
        · rw [heq]
          exact hc
        · exact hc.step hl (localInv_of_reachable hs hd) hnext
      have htime : s'.time = s.time := hc'.before hb'
      rw [step_time h, htick] at htime
      simp at htime
    rw [if_neg hnot, if_pos hb]
    rfl

/-! ## The calls of a device -/

/-- What the number of calls of `next_slot` that a device has made says about the
ticks. -/
def CallsInv (k : ℕ) (s : State) (d calls : ℕ) : Prop :=
  if (s.device d).pc.inDetach then calls ≤ k else calls = k + (s.toLocal d).ahead

/-- The calls of device `d` itself. -/
theorem CallsInv.call (hs : (system n).Reachable s) {k calls : ℕ} (hd : d < n)
    (hw : (s.device d).pc = .working) (h : CallsInv k s d calls) :
    CallsInv k (s.setDevice d { s.device d with pc := .lockEvent }) d (calls + 1) ∧
    CallsInv k (s.setDevice d { s.device d with pc := .detachLock }) d calls := by
  have hnot : (s.toLocal d).ahead = 0 := if_neg (not_beforeTick hs hd hw)
  have hcalls : calls = k := by
    rw [CallsInv, hw, hnot] at h
    exact h
  constructor
  · have hahead : ((s.setDevice d { s.device d with pc := .lockEvent }).toLocal d).ahead = 1 :=
      if_pos (.inl (by simp [State.toLocal]))
    rw [CallsInv, hahead, hcalls]
    simp [DevicePc.inDetach]
  · simp [CallsInv, DevicePc.inDetach, hcalls]

/-- A call is no tick. -/
theorem ticks_of_call (ha : a = .nextSlot d ∨ a = .detachEvent d) : s.ticks a = false := by
  rcases ha with rfl | rfl <;> rfl

/-- Every step. -/
theorem CallsInv.step (hs : (system n).Reachable s) (h : step n s a = some s') {k calls : ℕ}
    (hd : d < n) (hinv : CallsInv k s d calls) :
    CallsInv (k + if s.ticks a then 1 else 0) s' d (calls + if a = .nextSlot d then 1 else 0) := by
  by_cases hslot : a = .nextSlot d
  · obtain ⟨-, hw, rfl⟩ := step_call (.inl ⟨hslot, rfl⟩) h
    rw [ticks_of_call (.inl hslot), if_pos hslot]
    exact (hinv.call hs hd hw).1
  · rw [if_neg hslot]
    by_cases hdetach : a = .detachEvent d
    · obtain ⟨-, hw, rfl⟩ := step_call (.inr ⟨hdetach, rfl⟩) h
      rw [ticks_of_call (.inr hdetach)]
      exact (hinv.call hs hd hw).2
    · rw [CallsInv, step_inDetach h hslot hdetach]
      split
      · next hin =>
        rw [CallsInv, if_pos hin] at hinv
        exact Nat.le_add_right_of_le hinv
      · next hin =>
        rw [CallsInv, if_neg hin] at hinv
        have hahead := step_beforeTick hs h hd (Bool.eq_false_iff.mpr hin) hslot hdetach
        rw [Nat.add_zero, hinv, ← hahead, Nat.add_assoc]
        exact congrArg _ (Nat.add_comm _ _)

/-- The clock and the calls of every device, along a run. -/
theorem calls_eq {tr : List Act} {k : ℕ}
    (hr : ((system n).counted State.ticks).Run (startTimer, 0) tr (s, k)) :
    s.time = BitVec.ofNat 64 k ∧ ∀ d < n, CallsInv k s d (tr.count (.nextSlot d)) := by
  have hinv : (system n).Reachable s ∧ s.time = BitVec.ofNat 64 k ∧
      ∀ d < n, CallsInv k s d (tr.count (.nextSlot d)) := by
    have hs₀ : (system n).Reachable startTimer := .init rfl
    have hcalls₀ : ∀ d < n, CallsInv 0 startTimer d 0 := fun d _ => rfl
    refine hr.trace_invariant (I := fun tr t => (system n).Reachable t.1 ∧
      t.1.time = BitVec.ofNat 64 t.2 ∧ ∀ d < n, CallsInv t.2 t.1 d (tr.count (.nextSlot d)))
      ⟨hs₀, rfl, hcalls₀⟩ ?_
    rintro tr ⟨s, k⟩ a ⟨s', k'⟩ - ⟨hs, htime, hcalls⟩ ⟨hst, hk⟩
    dsimp only at hs htime hcalls hst hk ⊢
    subst hk
    refine ⟨hs.step hst, ?_, fun d hd => ?_⟩
    · rw [step_time hst, htime]
      split
      · exact (BitVec.ofNat_add ..).symm
      · exact BitVec.add_zero _
    · rw [List.count_append, List.count_singleton]
      simp only [beq_iff_eq]
      exact (hcalls d hd).step hs hst hd
  exact hinv.2

/-- Lock step. After `k` ticks the clock shows `k`, and every device that has not
called `detach_event` has called `next_slot` `k` or `k + 1` times, the latter as long as
the timer has not passed its call; so it is at `_time++`. A device that has called
`detach_event` made no more calls than there have been ticks. -/
theorem lock_step {tr : List Act} {k : ℕ}
    (hr : ((system n).counted State.ticks).Run (startTimer, 0) tr (s, k)) :
    s.time = BitVec.ofNat 64 k ∧
    (∀ d < n, (s.device d).pc.inDetach = false →
      tr.count (.nextSlot d) = k + if (s.toLocal d).beforeTick then 1 else 0) ∧
    (s.pc = .incTime → ∀ d < n, (s.device d).pc.inDetach = false →
      tr.count (.nextSlot d) = k + 1) ∧
    ∀ d < n, (s.device d).pc.inDetach = true → tr.count (.nextSlot d) ≤ k := by
  obtain ⟨htime, hcalls⟩ := calls_eq hr
  have hs : (system n).Reachable s := ⟨_, tr, rfl, hr.uncount⟩
  have hahead : ∀ d < n, (s.device d).pc.inDetach = false →
      tr.count (.nextSlot d) = k + (s.toLocal d).ahead := by
    intro d hd hin
    have h := hcalls d hd
    rwa [CallsInv, hin] at h
  refine ⟨htime, hahead, fun hpc d hd hin => ?_, fun d hd hin => ?_⟩
  · rw [hahead d hd hin, Local.ahead, if_pos (beforeTick_of_incTime hs hpc hd hin)]
  · have h := hcalls d hd
    rwa [CallsInv, if_pos hin] at h

/-- One device calls `next_slot` and is released: one call, one tick. -/
theorem lock_step_first_slot :
    ∃ s k, ((system 1).counted State.ticks).Run (startTimer, 0)
        (.nextSlot 0 :: (firstTick ++ firstRelease)) (s, k) ∧
      (s.device 0).pc.inDetach = false ∧ ¬ (s.toLocal 0).beforeTick ∧ k = 1 := by
  have hrun : ((Act.nextSlot 0 :: (firstTick ++ firstRelease)).foldlM (step 1) startTimer).any
      (fun s => !(s.device 0).pc.inDetach && !decide (s.toLocal 0).beforeTick) = true := by
    decide +kernel
  obtain ⟨s, hs, hp⟩ := (Option.any_eq_true _ _).mp hrun
  simp only [Bool.and_eq_true, Bool.not_eq_true', decide_eq_false_iff_not] at hp
  have hr : (system 1).Run startTimer _ s := Lts.Run.of_foldlM (fun _ _ _ h => h) hs
  obtain ⟨k, hk⟩ := hr.exists_counted State.ticks 0
  have hcalls := (lock_step hk).2.1 0 Nat.one_pos hp.1
  rw [if_neg hp.2] at hcalls
  exact ⟨s, k, hk, hp.1, hp.2, hcalls.symm.trans (by decide)⟩

end Timer

end SimpleOs
