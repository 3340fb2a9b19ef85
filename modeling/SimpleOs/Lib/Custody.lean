import SimpleOs.Lib.Lts

/-!
# Custody of tokens

A set of tokens moves between a shared pool and a number of holders. A token is
added to the pool once, is taken out of it by one holder at a time, and is put
back or given up by the holder that has it. The state is a function from tokens
to their location, so that no token can be in two places.

Result: `gone_of_free`, a token that was given up stays given up.
-/

namespace Custody

variable {κ τ : Type*}

/-- Where a token is. -/
inductive Loc (κ : Type*)
  | unborn
  | pooled
  | held (c : κ)
  | gone
  deriving DecidableEq

/-- What happens to a token. -/
inductive Event (κ τ : Type*)
  | add (p : τ)
  | get (c : κ) (p : τ)
  | put (c : κ) (p : τ)
  | free (c : κ) (p : τ)

/-- The token an event is about. -/
def Event.token : Event κ τ → τ
  | .add p | .get _ p | .put _ p | .free _ p => p

/-- Where the token has to be. -/
def Event.source : Event κ τ → Loc κ
  | .add _ => .unborn
  | .get _ _ => .pooled
  | .put c _ | .free c _ => .held c

/-- Where the token goes. -/
def Event.target : Event κ τ → Loc κ
  | .add _ | .put _ _ => .pooled
  | .get c _ => .held c
  | .free _ _ => .gone

theorem source_ne_gone (e : Event κ τ) : e.source ≠ .gone := by
  cases e <;> simp [Event.source]

variable [DecidableEq τ]

/-- The system of all custody histories. -/
def system : Lts (τ → Loc κ) (Event κ τ) where
  init l := ∀ p, l p = .unborn
  step l e l' := l e.token = e.source ∧ l' = Function.update l e.token e.target

variable {l l' : τ → Loc κ} {tr : List (Event κ τ)} {e : Event κ τ} {c : κ} {p : τ}

/-- An event moves only the token it is about. -/
theorem step_other (h : system.step l e l') (hp : p ≠ e.token) : l' p = l p := by
  rw [h.2, Function.update_of_ne hp]

theorem step_token (h : system.step l e l') : l' e.token = e.target := by
  rw [h.2, Function.update_self]

/-- A token that was given up stays given up. -/
theorem gone_of_free (hr : system.Run l tr l') (hf : .free c p ∈ tr) : l' p = .gone := by
  revert hf
  refine hr.trace_invariant (I := fun tr l' => Event.free c p ∈ tr → l' p = .gone) (by simp) ?_
  intro tr l₁ e l₂ _ ih hst hmem
  rcases List.mem_append.mp hmem with hold | hnew
  · have hgone := ih hold
    have hne : p ≠ e.token := by
      rintro rfl
      exact source_ne_gone e (hst.1.symm.trans hgone)
    rw [step_other hst hne, hgone]
  · obtain rfl := List.mem_singleton.mp hnew
    exact step_token hst

end Custody
