import Mathlib

/-!
# Labelled transition systems

A labelled transition system is a predicate of initial states and a step
relation `step s a t`. This module has what an invariant proof over all runs
needs:

* `Run L s tr t`: the labels `tr`, taken in order, lead from `s` to `t`;
  `Reachable L s`: some run leads from an initial state to `s`.
* `Reachable.invariant`, `Run.invariant`: a predicate that every step keeps
  holds along every run. `Run.trace_invariant` is the same for a predicate
  that also reads the labels taken so far.
* `restrict`: the system with only the steps that meet a condition, so that
  "every run whose steps all meet `Q`" is a run of `L.restrict Q`.
* `Run.until`: a run splits at the first state that meets a condition.
* `Run.of_foldlM`: computed steps, folded over a list of labels, form a run.
* `run_undo`: steps that can each be undone can be undone in the reverse order.
* `Reachable.map`: a function that sends every step of one system to a step
  of another, or to no step at all, sends reachable states to reachable
  states.
* `Run.count_le`: where every step of one kind lowers a measure, a run takes only
  so many of them; `exists_stuck`: then they can be taken until none is left.
-/

/-- A labelled transition system over states `σ` and labels `α`. -/
structure Lts (σ α : Type*) where
  init : σ → Prop
  step : σ → α → σ → Prop

namespace Lts

variable {σ τ α β : Type*} {L : Lts σ α}

/-- `Run L s tr t`: the steps labelled `tr` lead from `s` to `t`. -/
inductive Run (L : Lts σ α) (s : σ) : List α → σ → Prop
  | nil : Run L s [] s
  | snoc {tr : List α} {t u : σ} {a : α} :
      Run L s tr t → L.step t a u → Run L s (tr ++ [a]) u

/-- Some run leads from an initial state to `s`. -/
def Reachable (L : Lts σ α) (s : σ) : Prop :=
  ∃ s₀ tr, L.init s₀ ∧ Run L s₀ tr s

theorem Reachable.init {s : σ} (h : L.init s) : L.Reachable s :=
  ⟨s, [], h, .nil⟩

theorem Reachable.step {s t : σ} {a : α} (hs : L.Reachable s) (h : L.step s a t) :
    L.Reachable t := by
  obtain ⟨s₀, tr, h₀, hr⟩ := hs
  exact ⟨s₀, tr ++ [a], h₀, hr.snoc h⟩

/-- A predicate of the labels taken and the state reached, kept by every step,
holds at the end of every run. -/
theorem Run.trace_invariant {I : List α → σ → Prop} {s t : σ} {tr : List α}
    (hr : L.Run s tr t) (h₀ : I [] s)
    (hstep : ∀ tr t a u, L.Run s tr t → I tr t → L.step t a u → I (tr ++ [a]) u) : I tr t := by
  induction hr with
  | nil => exact h₀
  | snoc hr hst ih => exact hstep _ _ _ _ hr ih hst

/-- A predicate kept by every step holds at the end of every run. -/
theorem Run.invariant {I : σ → Prop} {s t : σ} {tr : List α} (hr : L.Run s tr t) (h₀ : I s)
    (hstep : ∀ t a u, I t → L.step t a u → I u) : I t :=
  hr.trace_invariant (I := fun _ t => I t) h₀ fun _ t a u _ ih hst => hstep t a u ih hst

/-- A predicate true of the initial states and kept by every step is true of
every reachable state. -/
theorem Reachable.invariant {I : σ → Prop} {s : σ} (hs : L.Reachable s)
    (h₀ : ∀ s, L.init s → I s) (hstep : ∀ s a t, I s → L.step s a t → I t) : I s := by
  obtain ⟨s₀, tr, hi, hr⟩ := hs
  exact hr.invariant (h₀ s₀ hi) hstep

/-- The states of a run that starts in a reachable state are reachable. -/
theorem Reachable.run {s t : σ} {tr : List α} (hs : L.Reachable s) (hr : L.Run s tr t) :
    L.Reachable t :=
  hr.invariant hs fun _ _ _ ht hst => ht.step hst

theorem Run.append {s t u : σ} {tr tr' : List α} (h : L.Run s tr t) (h' : L.Run t tr' u) :
    L.Run s (tr ++ tr') u := by
  induction h' with
  | nil => simpa using h
  | snoc _ hst ih => rw [← List.append_assoc]; exact ih.snoc hst

theorem Run.cons {s t u : σ} {a : α} {tr : List α} (h : L.step s a t) (hr : L.Run t tr u) :
    L.Run s (a :: tr) u :=
  (Run.snoc .nil h).append hr

/-- Where the steps are computed by a function, a list of labels that runs is a run. -/
theorem Run.of_foldlM {f : σ → α → Option σ} (hf : ∀ s a t, f s a = some t → L.step s a t)
    {s t : σ} {tr : List α} (h : tr.foldlM f s = some t) : L.Run s tr t := by
  induction tr generalizing s with
  | nil =>
    cases h
    exact .nil
  | cons a tr ih =>
    obtain ⟨u, hu, hrest⟩ := Option.bind_eq_some_iff.mp h
    exact Run.cons (hf s a u hu) (ih hrest)

/-- If in every state that meets `I` the first step on the list can be taken and
undone, and leads to a state that meets `I` for the rest, then all steps on the list
can be taken and undone, the last one first. -/
theorem run_undo {ι : Type*} {take undo : ι → α} {I : List ι → σ → Prop}
    (hstep : ∀ i rest s, I (i :: rest) s →
      ∃ t, L.step s (take i) t ∧ L.step t (undo i) s ∧ I rest t)
    {steps : List ι} {s : σ} (h : I steps s) :
    L.Run s (steps.map take ++ steps.reverse.map undo) s := by
  induction steps generalizing s with
  | nil => exact .nil
  | cons i rest ih =>
    obtain ⟨t, htake, hundo, hrest⟩ := hstep i rest s h
    have hinner := (ih hrest).snoc hundo
    rw [List.reverse_cons, List.map_append, List.map_cons, List.cons_append, ← List.append_assoc]
    exact Run.cons htake hinner

/-- The system that takes only the steps that meet `Q`. -/
def restrict (L : Lts σ α) (Q : σ → α → σ → Prop) : Lts σ α where
  init := L.init
  step s a t := L.step s a t ∧ Q s a t

/-- A run of a restricted system is a run of the system. -/
theorem Run.of_restrict {Q : σ → α → σ → Prop} {s t : σ} {tr : List α}
    (h : (L.restrict Q).Run s tr t) : L.Run s tr t := by
  induction h with
  | nil => exact .nil
  | snoc _ hst ih => exact ih.snoc hst.1

/-- A run up to the first state that meets `P`, and on from there. -/
theorem Run.until (P : σ → Prop) {s t : σ} {tr : List α} (hr : L.Run s tr t) :
    ∃ tr₁ tr₂ u, tr = tr₁ ++ tr₂ ∧ (L.restrict fun s _ _ => ¬ P s).Run s tr₁ u ∧
      L.Run u tr₂ t ∧ (P u ∨ u = t ∧ tr₂ = []) := by
  induction hr with
  | nil => exact ⟨[], [], s, rfl, .nil, .nil, .inr ⟨rfl, rfl⟩⟩
  | @snoc tr t u a hr hst ih =>
    obtain ⟨tr₁, tr₂, v, rfl, hr₁, hr₂, hv⟩ := ih
    by_cases hP : P v
    · exact ⟨tr₁, tr₂ ++ [a], v, List.append_assoc .., hr₁, hr₂.snoc hst, .inl hP⟩
    · obtain ⟨rfl, rfl⟩ := hv.resolve_left hP
      rw [List.append_nil]
      exact ⟨tr₁ ++ [a], [], u, (List.append_nil _).symm, hr₁.snoc ⟨hst, hP⟩, .nil,
        .inr ⟨rfl, rfl⟩⟩

/-- A stuttering simulation function maps reachable states to reachable states. -/
theorem Reachable.map {M : Lts τ β} (f : σ → τ) (hinit : ∀ s, L.init s → M.init (f s))
    (hstep : ∀ s a t, L.step s a t → f t = f s ∨ ∃ b, M.step (f s) b (f t)) {s : σ}
    (hs : L.Reachable s) : M.Reachable (f s) := by
  refine hs.invariant (I := fun s => M.Reachable (f s)) (fun s h => .init (hinit s h)) ?_
  intro s a t ih hst
  rcases hstep s a t hst with heq | ⟨b, hb⟩
  · rw [heq]; exact ih
  · exact ih.step hb

/-! ## Measures -/

/-- A step labelled `work` lowers the measure by one, a step labelled `gain` may
raise it by `k`. A run then takes as many steps of work as the measure of its first
state pays for, and those its gains pay for. -/
theorem Run.count_le {I : σ → Prop} {μ : σ → ℕ} {work gain : α → Bool} {k : ℕ} {s t : σ}
    {tr : List α} (hr : L.Run s tr t) (h₀ : I s)
    (hstep : ∀ s a t, I s → L.step s a t →
      I t ∧ μ t + (if work a then 1 else 0) ≤ μ s + if gain a then k else 0) :
    I t ∧ μ t + tr.countP work ≤ μ s + k * tr.countP gain := by
  refine hr.trace_invariant
    (I := fun tr t => I t ∧ μ t + tr.countP work ≤ μ s + k * tr.countP gain) ⟨h₀, le_rfl⟩ ?_
  rintro tr t a u - ⟨ht, hle⟩ hst
  obtain ⟨hu, hpay⟩ := hstep t a u ht hst
  refine ⟨hu, ?_⟩
  rw [List.countP_append, List.countP_append, List.countP_singleton, List.countP_singleton,
    Nat.mul_add, mul_ite, Nat.mul_one, Nat.mul_zero]
  omega

/-- If every run takes only so many steps of work, steps of work can be taken until
none is possible. -/
theorem exists_stuck {work : α → Bool} {s : σ} {m : ℕ}
    (hbound : ∀ tr t, L.Run s tr t → tr.all work = true → tr.length ≤ m) :
    ∃ tr t, L.Run s tr t ∧ ∀ a u, work a = true → ¬ L.step t a u := by
  by_contra hnone
  push Not at hnone
  have hlong : ∀ k, ∃ tr t, L.Run s tr t ∧ tr.all work = true ∧ tr.length = k := by
    intro k
    induction k with
    | zero => exact ⟨[], s, .nil, rfl, rfl⟩
    | succ k ih =>
      obtain ⟨tr, t, hr, hwork, hlen⟩ := ih
      obtain ⟨a, u, ha, hst⟩ := hnone tr t hr
      exact ⟨tr ++ [a], u, hr.snoc hst, by simp [hwork, ha], by simp [hlen]⟩
  obtain ⟨tr, t, hr, hwork, hlen⟩ := hlong (m + 1)
  have hle := hbound tr t hr hwork
  rw [hlen] at hle
  exact Nat.not_succ_le_self m hle

/-! A system of `n` parties has a measure with one term for each of them. -/

/-- One term of a sum changes. -/
theorem sum_update_add {f : ℕ → ℕ} {n e : ℕ} (he : e < n) (k : ℕ) :
    ∑ d ∈ Finset.range n, Function.update f e k d + f e = ∑ d ∈ Finset.range n, f d + k := by
  have hmem : e ∈ Finset.range n := Finset.mem_range.mpr he
  rw [Finset.sum_update_of_mem hmem, Finset.sum_eq_add_sum_sdiff_singleton_of_mem hmem f]
  omega

/-- One of the terms of a sum falls by `k`, and the others do not rise. -/
theorem sum_add_le_of_lt {f g : ℕ → ℕ} {n c k : ℕ} (hc : c < n)
    (hother : ∀ d < n, d ≠ c → g d ≤ f d) (hself : g c + k ≤ f c) :
    ∑ d ∈ Finset.range n, g d + k ≤ ∑ d ∈ Finset.range n, f d := by
  have hupdate := sum_update_add (f := g) hc (g c + k)
  have hle : ∑ d ∈ Finset.range n, Function.update g c (g c + k) d ≤
      ∑ d ∈ Finset.range n, f d := by
    refine Finset.sum_le_sum fun d hd => ?_
    rw [Function.update_apply]
    split
    · next heq => rwa [heq]
    · next hne => exact hother d (Finset.mem_range.mp hd) hne
  omega

theorem sum_add_le {f g : ℕ → ℕ} {n c k : ℕ} (hc : c < n) (hother : ∀ d, d ≠ c → g d ≤ f d)
    (hself : g c + k ≤ f c) :
    ∑ d ∈ Finset.range n, g d + k ≤ ∑ d ∈ Finset.range n, f d :=
  sum_add_le_of_lt hc (fun d _ => hother d) hself

end Lts
