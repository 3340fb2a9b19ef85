import SimpleOs.Lib.Lts

/-!
# Threads with one lock

A program gives the statement at each position: what it does to the lock, the
next position, and the memory. Any number of threads run it on one memory; a
thread at `idle` may make any call.

* `Program.threads`: the transition system of the threads.
* `Discipline locked`: the positions in `locked` are the ones between taking and
  giving the lock. `Discipline.held_iff`: then the holder of the lock is the
  thread at such a position.
* `never_at`: a class of positions that no admitted statement enters.
-/

namespace Mutex

/-- What a statement does to the lock. -/
inductive LockAct
  | keep
  | take
  | give
  deriving DecidableEq

variable {τ κ π μ : Type*}

/-- The lock after an action of `t`, or `none` where `t` has to wait. -/
def LockAct.apply (t : τ) : LockAct → Option τ → Option (Option τ)
  | .keep, lock => some lock
  | .take, none => some (some t)
  | .take, some _ => none
  | .give, _ => some none

/-- Calls `κ`, positions `π` and memories `μ`. -/
structure Program (κ π μ : Type*) where
  idle : π
  entry : κ → π
  next : μ → π → Option (LockAct × π × μ)

structure State (τ π μ : Type*) where
  lock : Option τ
  pos : τ → π
  mem : μ

/-- What a thread does: it makes a call, or it runs a statement. -/
inductive Act (κ : Type*)
  | call (c : κ)
  | stmt

variable [DecidableEq τ]

/-- The thread `t` moves to `p`. -/
def State.move (s : State τ π μ) (t : τ) (p : π) : State τ π μ :=
  { s with pos := Function.update s.pos t p }

/-- The threads. The memory they start from is not restricted. -/
def Program.threads (P : Program κ π μ) (τ : Type*) [DecidableEq τ] :
    Lts (State τ π μ) (τ × Act κ) where
  init s := s.lock = none ∧ ∀ t, s.pos t = P.idle
  step s l s' :=
    match l with
    | (t, .call c) => s.pos t = P.idle ∧ s' = s.move t (P.entry c)
    | (t, .stmt) => ∃ act p mem lock, P.next s.mem (s.pos t) = some (act, p, mem) ∧
      act.apply t s.lock = some lock ∧ s' = ⟨lock, Function.update s.pos t p, mem⟩

/-- The positions in `locked` lie between taking and giving the lock. -/
structure Program.Discipline (P : Program κ π μ) (locked : π → Bool) : Prop where
  idle : locked P.idle = false
  entry : ∀ c, locked (P.entry c) = false
  keep : ∀ mem p p' mem', P.next mem p = some (.keep, p', mem') → locked p' = locked p
  take : ∀ mem p p' mem', P.next mem p = some (.take, p', mem') →
    locked p = false ∧ locked p' = true
  give : ∀ mem p p' mem', P.next mem p = some (.give, p', mem') →
    locked p = true ∧ locked p' = false

variable {P : Program κ π μ} {locked : π → Bool} {s s' : State τ π μ} {l : τ × Act κ}

section Move

variable (s : State τ π μ) (t : τ) (p : π)

@[simp] theorem State.move_lock : (s.move t p).lock = s.lock := rfl

@[simp] theorem State.move_mem : (s.move t p).mem = s.mem := rfl

@[simp] theorem State.move_pos_self : (s.move t p).pos t = p :=
  Function.update_self ..

end Move

/-- A statement that leaves the lock and the memory alone moves its thread. -/
theorem Program.step_move {t : τ} {p : π}
    (h : P.next s.mem (s.pos t) = some (.keep, p, s.mem)) :
    (P.threads τ).step s (t, .stmt) (s.move t p) :=
  ⟨.keep, p, s.mem, s.lock, h, rfl, rfl⟩

/-- Every step moves one thread, to the entry of a call or past a statement. -/
theorem step_pos (hstep : (P.threads τ).step s l s') (u : τ) :
    s'.pos u = s.pos u ∨ (u = l.1 ∧ ((∃ c, s'.pos u = P.entry c) ∨
      ∃ act mem, P.next s.mem (s.pos u) = some (act, s'.pos u, mem) ∧ l.2 = .stmt)) := by
  obtain ⟨t, act⟩ := l
  rcases eq_or_ne u t with rfl | hne
  · refine .inr ⟨rfl, ?_⟩
    cases act with
    | call c =>
      obtain ⟨-, rfl⟩ := hstep
      exact .inl ⟨c, Function.update_self ..⟩
    | stmt =>
      obtain ⟨act, p, mem, lock, hnext, -, rfl⟩ := hstep
      refine .inr ⟨act, mem, ?_, rfl⟩
      show P.next s.mem (s.pos u) = some (act, Function.update s.pos u p u, mem)
      rw [Function.update_self]
      exact hnext
  · left
    cases act with
    | call c =>
      obtain ⟨-, rfl⟩ := hstep
      exact Function.update_of_ne hne _ _
    | stmt =>
      obtain ⟨act, p, mem, lock, -, -, rfl⟩ := hstep
      exact Function.update_of_ne hne _ _

/-- The holder of the lock is the thread at a locked position. -/
def Held (locked : π → Bool) (s : State τ π μ) : Prop :=
  ∀ t, s.lock = some t ↔ locked (s.pos t) = true

omit [DecidableEq τ] in
theorem Held.unique (h : Held locked s) {t u : τ} (ht : locked (s.pos t) = true)
    (hu : locked (s.pos u) = true) : t = u :=
  Option.some.inj (((h t).mpr ht).symm.trans ((h u).mpr hu))

theorem Program.Discipline.step (hP : P.Discipline locked) (h : Held locked s)
    (hstep : (P.threads τ).step s l s') : Held locked s' := by
  obtain ⟨t, act⟩ := l
  -- A thread that does not move keeps its place.
  have hother : ∀ {p : π} {u : τ}, u ≠ t →
      (locked (Function.update s.pos t p u) = true ↔ s.lock = some u) := by
    intro p u hu
    rw [Function.update_of_ne hu]
    exact (h u).symm
  cases act with
  | call c =>
    obtain ⟨hidle, rfl⟩ := hstep
    intro u
    rcases eq_or_ne u t with rfl | hu
    · have hfree : locked (s.pos u) = false := by rw [hidle, hP.idle]
      show s.lock = some u ↔ locked (Function.update s.pos u (P.entry c) u) = true
      rw [Function.update_self, hP.entry, ← hfree]
      exact h u
    · exact (hother hu).symm
  | stmt =>
    obtain ⟨act, p, mem, lock, hnext, hlock, rfl⟩ := hstep
    intro u
    show lock = some u ↔ locked (Function.update s.pos t p u) = true
    cases act with
    | keep =>
      cases hlock
      rcases eq_or_ne u t with rfl | hu
      · rw [Function.update_self, hP.keep _ _ _ _ hnext]
        exact h u
      · exact (hother hu).symm
    | take =>
      cases hs : s.lock with
      | some v =>
        rw [hs] at hlock
        cases hlock
      | none =>
        rw [hs] at hlock
        cases hlock
        rcases eq_or_ne u t with rfl | hu
        · rw [Function.update_self, (hP.take _ _ _ _ hnext).2]
          exact iff_of_true rfl rfl
        · rw [hother hu, hs]
          exact iff_of_false (fun heq => hu (Option.some.inj heq).symm) nofun
    | give =>
      cases hlock
      have ht : s.lock = some t := (h t).mpr (hP.give _ _ _ _ hnext).1
      rcases eq_or_ne u t with rfl | hu
      · rw [Function.update_self, (hP.give _ _ _ _ hnext).2]
        exact iff_of_false nofun nofun
      · rw [hother hu, ht]
        exact iff_of_false nofun fun heq => hu (Option.some.inj heq).symm

/-- In every run the holder of the lock is the thread at a locked position. -/
theorem Program.Discipline.held_iff (hP : P.Discipline locked) {s₀ : State τ π μ}
    {tr : List (τ × Act κ)} (h₀ : (P.threads τ).init s₀) (hrun : (P.threads τ).Run s₀ tr s) :
    Held locked s := by
  refine hrun.invariant (I := Held locked) (fun t => ?_) fun _ _ _ h hstep => hP.step h hstep
  rw [h₀.1, h₀.2 t, hP.idle]
  exact iff_of_false nofun nofun

/-- The steps whose statements are admitted. -/
def Admits (ok : μ → π → Prop) (s : State τ π μ) (l : τ × Act κ) (_ : State τ π μ) : Prop :=
  l.2 = .stmt → ok s.mem (s.pos l.1)

/-- If neither a call nor an admitted statement enters a class of positions, no
thread is ever there. -/
theorem never_at {ok : μ → π → Prop} {bad : π → Bool} (hidle : bad P.idle = false)
    (hentry : ∀ c, bad (P.entry c) = false)
    (hnext : ∀ mem p act p' mem', P.next mem p = some (act, p', mem') → ok mem p →
      bad p = false → bad p' = false)
    {s₀ : State τ π μ} {tr : List (τ × Act κ)} (h₀ : (P.threads τ).init s₀)
    (hrun : ((P.threads τ).restrict (Admits ok)).Run s₀ tr s) (t : τ) : bad (s.pos t) = false := by
  refine hrun.invariant (I := fun s => ∀ t, bad (s.pos t) = false)
    (fun t => by rw [h₀.2 t, hidle]) (fun s l s' h hstep u => ?_) t
  obtain ⟨hstep, hok⟩ := hstep
  rcases step_pos hstep u with hsame | ⟨rfl, ⟨c, hcall⟩ | ⟨act, mem, hstmt, hl⟩⟩
  · rw [hsame]
    exact h u
  · rw [hcall]
    exact hentry c
  · exact hnext _ _ _ _ _ hstmt (hok hl) (h l.1)

end Mutex
