import Mathlib

/-!
# Machine addresses and faults

`addr_t` of the 64-bit build, and the ways in which a C function can go wrong
instead of returning. A function of the model that can fault returns
`Except Fault` of its result.
-/

namespace SimpleOs

/-- `addr_t` of the 64-bit build. -/
abbrev Addr := BitVec 64

/-- What a C function does where its behaviour is not defined. -/
inductive Fault
  /-- It follows a null pointer. -/
  | nullDeref
  /-- It follows a pointer to memory that is not allocated or not initialised. -/
  | wildDeref
  /-- It indexes an array outside its bounds. -/
  | outOfBounds
  /-- It is still in a loop when the rounds the model grants are used up. -/
  | outOfFuel
  deriving DecidableEq, Repr

variable {α β : Type}

@[simp] theorem ok_bind (a : α) (f : α → Except Fault β) :
    (Except.ok a >>= f) = f a := rfl

@[simp] theorem error_bind (e : Fault) (f : α → Except Fault β) :
    (Except.error e >>= f) = Except.error e := rfl

/-- A sequence returns exactly if its parts do. -/
theorem bind_eq_ok {x : Except Fault α} {f : α → Except Fault β} {b : β} :
    (x >>= f) = .ok b ↔ ∃ a, x = .ok a ∧ f a = .ok b := by
  cases x with
  | error e => simp
  | ok a => simp

/-- A sequence faults exactly if one of its parts does. -/
theorem bind_eq_error {x : Except Fault α} {f : α → Except Fault β} {e : Fault} :
    (x >>= f) = .error e ↔ x = .error e ∨ ∃ a, x = .ok a ∧ f a = .error e := by
  cases x with
  | error e' => simp
  | ok a => simp

/-- What comes behind the first part returns anyway. -/
theorem exists_bind_ok_iff {x : Except Fault α} {f : α → Except Fault β}
    (hf : ∀ a, ∃ b, f a = .ok b) : (∃ b, (x >>= f) = .ok b) ↔ ∃ a, x = .ok a := by
  constructor
  · rintro ⟨b, h⟩
    obtain ⟨a, hx, -⟩ := bind_eq_ok.mp h
    exact ⟨a, hx⟩
  · rintro ⟨a, hx⟩
    obtain ⟨b, hb⟩ := hf a
    exact ⟨b, bind_eq_ok.mpr ⟨a, hx, hb⟩⟩

theorem map_eq_ok {x : Except Fault α} {f : α → β} {b : β} :
    x.map f = .ok b ↔ ∃ a, x = .ok a ∧ f a = b := by
  cases x with
  | error e => simp [Except.map]
  | ok a => simp [Except.map]

theorem map_eq_error {x : Except Fault α} {f : α → β} {e : Fault} :
    x.map f = .error e ↔ x = .error e := by
  cases x with
  | error e' => simp [Except.map]
  | ok a => simp [Except.map]

end SimpleOs
