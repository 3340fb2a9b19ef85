import SimpleOs.Lib.Lts

/-!
# Ticks of a clock

Some steps of a system are ticks of a clock, which cut its runs into slots. This
module counts them.

* `counted`: the system with a counter of its ticks. `Run.exists_counted`,
  `Run.uncount`: it has the same runs.
* `Run.countP_le_ticks`: a step that is taken at most once in a slot is taken at
  most once more than the clock ticks.
* `Run.count_le_ticks`: where every slot pays for so many steps of work, so does
  every run.
-/

namespace Lts

variable {σ α : Type*} {L : Lts σ α} {tick : σ → α → Bool}

/-- The system with a counter of its ticks. -/
def counted (L : Lts σ α) (tick : σ → α → Bool) : Lts (σ × ℕ) α where
  init s := L.init s.1 ∧ s.2 = 0
  step s a t := L.step s.1 a t.1 ∧ t.2 = s.2 + if tick s.1 a then 1 else 0

theorem Run.uncount {s t : σ × ℕ} {tr : List α} (h : (L.counted tick).Run s tr t) :
    L.Run s.1 tr t.1 := by
  induction h with
  | nil => exact .nil
  | snoc _ hst ih => exact ih.snoc hst.1

/-- Every run has a number of ticks. -/
theorem Run.exists_counted (tick : σ → α → Bool) {s t : σ} {tr : List α} (h : L.Run s tr t)
    (j : ℕ) :
    ∃ k, (L.counted tick).Run (s, j) tr (t, k) := by
  induction h with
  | nil => exact ⟨j, .nil⟩
  | snoc _ hst ih =>
    obtain ⟨k, hr⟩ := ih
    exact ⟨_, hr.snoc (u := (_, _)) ⟨hst, rfl⟩⟩

/-- A reachable state with its counter is reachable. -/
theorem Reachable.uncount {s : σ × ℕ} (h : (L.counted tick).Reachable s) : L.Reachable s.1 := by
  obtain ⟨s₀, tr, hinit, hr⟩ := h
  exact ⟨s₀.1, tr, hinit.1, hr.uncount⟩

/-- A step of work is taken only where the slot is not spent, and spends it; and a slot
stays spent up to the tick. Then there is at most one step of work in each slot. -/
theorem Run.countP_le_ticks {I : σ → Prop} (spent : σ → Prop) {work : α → Bool} {s t : σ}
    {tr : List α} {k : ℕ} (hr : (L.counted tick).Run (s, 0) tr (t, k)) (h₀ : I s)
    (hstep : ∀ s a t, I s → L.step s a t → I t ∧
      (work a = true → ¬ spent s ∧ spent t) ∧ (tick s a = false → spent s → spent t)) :
    tr.countP work ≤ k + 1 ∧ (¬ spent t → tr.countP work ≤ k) := by
  have hinv : I t ∧ tr.countP work ≤ k + 1 ∧ (¬ spent t → tr.countP work ≤ k) := by
    refine hr.trace_invariant (I := fun tr t => I t.1 ∧ tr.countP work ≤ t.2 + 1 ∧
      (¬ spent t.1 → tr.countP work ≤ t.2)) ⟨h₀, Nat.zero_le _, fun _ => Nat.zero_le _⟩ ?_
    rintro tr ⟨t, k⟩ a ⟨u, k'⟩ - ⟨ht, hle, hfree⟩ ⟨hst, hk⟩
    obtain ⟨hu, hwork, hkeep⟩ := hstep t a u ht hst
    dsimp only at hle hfree hk ⊢
    rw [List.countP_append, List.countP_singleton, hk]
    cases hw : work a with
    | true =>
      obtain ⟨hnot, hspent⟩ := hwork hw
      have hbefore := hfree hnot
      refine ⟨hu, ?_, fun h => absurd hspent h⟩
      rw [if_pos rfl]
      omega
    | false =>
      rw [if_neg Bool.false_ne_true, Nat.add_zero]
      cases htick : tick t a with
      | true =>
        rw [if_pos rfl]
        exact ⟨hu, Nat.le_succ_of_le hle, fun _ => hle⟩
      | false =>
        rw [if_neg Bool.false_ne_true, Nat.add_zero]
        exact ⟨hu, hle, fun h => hfree fun hspent => h (hkeep htick hspent)⟩
  exact hinv.2

/-- A step of work lowers the measure by one, a step labelled `gain` may raise it by
`c`, and a tick by `b`. -/
theorem Run.count_le_ticks {I : σ → Prop} {μ : σ → ℕ} {work gain : α → Bool} {b c k : ℕ} {s t : σ}
    {tr : List α} (hr : (L.counted tick).Run (s, 0) tr (t, k)) (h₀ : I s)
    (hstep : ∀ s a t, I s → L.step s a t → I t ∧ μ t + (if work a then 1 else 0) ≤
      μ s + (if gain a then c else 0) + if tick s a then b else 0) :
    μ t + tr.countP work ≤ μ s + c * tr.countP gain + b * k := by
  have hinv : I t ∧ μ t + tr.countP work ≤ μ s + c * tr.countP gain + b * k := by
    refine hr.trace_invariant (I := fun tr t => I t.1 ∧
      μ t.1 + tr.countP work ≤ μ s + c * tr.countP gain + b * t.2) ⟨h₀, by simp⟩ ?_
    rintro tr ⟨t, k⟩ a ⟨u, k'⟩ - ⟨ht, hle⟩ ⟨hst, hk⟩
    obtain ⟨hu, hpay⟩ := hstep t a u ht hst
    refine ⟨hu, ?_⟩
    dsimp only at hle hk ⊢
    rw [List.countP_append, List.countP_append, List.countP_singleton, List.countP_singleton, hk,
      Nat.mul_add, Nat.mul_add, mul_ite, mul_ite, Nat.mul_one, Nat.mul_one, Nat.mul_zero,
      Nat.mul_zero]
    omega
  exact hinv.2

end Lts
