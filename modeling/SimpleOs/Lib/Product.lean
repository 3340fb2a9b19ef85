import SimpleOs.Lib.Lts

/-!
# Two systems side by side

A caller and the component it calls are two systems. They take most of their steps
alone, and a call, or the return from it, together.

* `product`: the systems `L` and `M` with the steps of one or of both that `ok` admits.
* `Run.left`, `Run.right`: a run of the product is a run of each of the two systems.
-/

namespace Lts

/-- A step of the first system, of the second, or of both. -/
inductive Joint (α β : Type*)
  | left (a : α)
  | right (b : β)
  | both (a : α) (b : β)
  deriving DecidableEq

namespace Joint

variable {α β : Type*}

/-- The step of the first system. -/
def fst? : Joint α β → Option α
  | .left a | .both a _ => some a
  | .right _ => none

/-- The step of the second system. -/
def snd? : Joint α β → Option β
  | .right b | .both _ b => some b
  | .left _ => none

end Joint

variable {σ τ α β : Type*} {L : Lts σ α} {M : Lts τ β} {ok : σ × τ → Joint α β → Prop}

/-- The two systems, with the steps that `ok` admits. -/
def product (L : Lts σ α) (M : Lts τ β) (ok : σ × τ → Joint α β → Prop) :
    Lts (σ × τ) (Joint α β) where
  init s := L.init s.1 ∧ M.init s.2
  step s j t := ok s j ∧
    match j with
    | .left a => L.step s.1 a t.1 ∧ t.2 = s.2
    | .right b => t.1 = s.1 ∧ M.step s.2 b t.2
    | .both a b => L.step s.1 a t.1 ∧ M.step s.2 b t.2

/-- What a step of the product does to the first system. -/
theorem product_left {s t : σ × τ} {j : Joint α β} (h : (L.product M ok).step s j t) :
    j.fst? = none ∧ t.1 = s.1 ∨ ∃ a, j.fst? = some a ∧ L.step s.1 a t.1 := by
  cases j with
  | left a => exact .inr ⟨a, rfl, h.2.1⟩
  | right b => exact .inl ⟨rfl, h.2.1⟩
  | both a b => exact .inr ⟨a, rfl, h.2.1⟩

/-- What a step of the product does to the second system. -/
theorem product_right {s t : σ × τ} {j : Joint α β} (h : (L.product M ok).step s j t) :
    j.snd? = none ∧ t.2 = s.2 ∨ ∃ b, j.snd? = some b ∧ M.step s.2 b t.2 := by
  cases j with
  | left a => exact .inl ⟨rfl, h.2.2⟩
  | right b => exact .inr ⟨b, rfl, h.2.2⟩
  | both a b => exact .inr ⟨b, rfl, h.2.2⟩

theorem Run.left {s t : σ × τ} {tr : List (Joint α β)} (h : (L.product M ok).Run s tr t) :
    L.Run s.1 (tr.filterMap Joint.fst?) t.1 := by
  induction h with
  | nil => exact .nil
  | snoc _ hst ih =>
    rw [List.filterMap_append]
    rcases product_left hst with ⟨hj, heq⟩ | ⟨a, hj, hstep⟩
    · rw [List.filterMap_cons_none hj, List.filterMap_nil, List.append_nil, heq]
      exact ih
    · rw [List.filterMap_cons_some hj, List.filterMap_nil]
      exact ih.snoc hstep

theorem Run.right {s t : σ × τ} {tr : List (Joint α β)} (h : (L.product M ok).Run s tr t) :
    M.Run s.2 (tr.filterMap Joint.snd?) t.2 := by
  induction h with
  | nil => exact .nil
  | snoc _ hst ih =>
    rw [List.filterMap_append]
    rcases product_right hst with ⟨hj, heq⟩ | ⟨b, hj, hstep⟩
    · rw [List.filterMap_cons_none hj, List.filterMap_nil, List.append_nil, heq]
      exact ih
    · rw [List.filterMap_cons_some hj, List.filterMap_nil]
      exact ih.snoc hstep

end Lts
