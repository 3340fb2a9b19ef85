import SimpleOs.Lib.Lts

/-!
# The lock of the ready queue

`get_proc`, `put_proc` and `add_proc` guard the ready queues with `queue_lock`.
In the build with a multi-level queue, `get_mlq_proc` returns with the lock held;
the `get_proc` of the other build releases it.

The model has any number of threads, each of which calls the three functions in
any order. A step is a call, a return, or one statement of a function.

Results:
1. `lockSafe_iff`: with the multi-level queue, the lock is in order after a run
   exactly if no `get_proc` has acquired it in the run.
2. `Reachable.lockSafe`: in the other build it always is.
-/

namespace SimpleOs

namespace SchedLock

/-- The two builds, with and without `MLQ_SCHED`. -/
inductive Build
  | mlq
  | single
  deriving DecidableEq

/-- The functions that take the lock. -/
inductive Fn
  | getProc
  | putProc
  | addProc
  deriving DecidableEq

/-- Where a thread is. -/
inductive Pos
  /-- In none of the functions. -/
  | outside
  /-- At the assignments to `proc->krnl`. -/
  | setKrnl (f : Fn)
  /-- At `pthread_mutex_lock`. -/
  | lock (f : Fn)
  /-- Behind it: at `enqueue`, or at the test of `proc` in `get_mlq_proc`. -/
  | body (f : Fn)
  /-- At `pthread_mutex_unlock`. -/
  | unlock (f : Fn)
  /-- At the return. -/
  | ret (f : Fn)
  deriving DecidableEq

/-- Where a call begins. -/
def entry : Fn → Pos
  | .getProc => .lock .getProc
  | .putProc => .setKrnl .putProc
  | .addProc => .setKrnl .addProc

/-- What follows the body. `enqueue` does nothing, and `proc` is null in
`get_mlq_proc`, which does not unlock. -/
def afterBody : Build → Fn → Pos
  | .mlq, .getProc => .ret .getProc
  | .mlq, f => .unlock f
  | .single, f => .unlock f

variable {τ : Type*} [DecidableEq τ]

/-- `queue_lock`, by its holder, and the place of each thread. -/
structure State (τ : Type*) where
  queueLock : Option τ
  pos : τ → Pos

/-- The thread `t` moves to `p`. -/
def State.move (s : State τ) (t : τ) (p : Pos) : State τ :=
  { s with pos := Function.update s.pos t p }

/-- A statement of a thread. -/
inductive Act
  | call (f : Fn)
  | setKrnl (f : Fn)
  | acquire (f : Fn)
  | body (f : Fn)
  | release (f : Fn)
  | ret (f : Fn)
  deriving DecidableEq

/-- The threads and the lock, from the state after `init_scheduler`. -/
def threads (τ : Type*) [DecidableEq τ] (build : Build) : Lts (State τ) (τ × Act) where
  init s := s.queueLock = none ∧ ∀ t, s.pos t = .outside
  step s l s' :=
    match l with
    | (t, .call f) => s.pos t = .outside ∧ s' = s.move t (entry f)
    | (t, .setKrnl f) => s.pos t = .setKrnl f ∧ s' = s.move t (.lock f)
    | (t, .acquire f) => s.pos t = .lock f ∧ s.queueLock = none ∧
      s' = { s.move t (.body f) with queueLock := some t }
    | (t, .body f) => s.pos t = .body f ∧ s' = s.move t (afterBody build f)
    | (t, .release f) => s.pos t = .unlock f ∧ s' = { s.move t (.ret f) with queueLock := none }
    | (t, .ret f) => s.pos t = .ret f ∧ s' = s.move t .outside

/-- The thread is inside one of the functions. -/
def Pos.inside (p : Pos) : Prop :=
  p ≠ .outside

/-- The thread is between `pthread_mutex_lock` and `pthread_mutex_unlock`. -/
def Pos.guarded : Pos → Bool
  | .body _ | .unlock _ => true
  | .outside | .setKrnl _ | .lock _ | .ret _ => false

/-- The lock is in order: it is held only by a thread inside a function that is
not about to acquire it, and if it is held, the next statements of its holder,
which nobody can block, release it. -/
structure LockSafe (build : Build) (s : State τ) : Prop where
  inside : ∀ t, s.queueLock = some t → (s.pos t).inside
  notAgain : ∀ t f, s.pos t = .lock f → s.queueLock ≠ some t
  released : ∀ t, s.queueLock = some t → ∃ tr s', (threads τ build).Run s tr s' ∧
    (∀ l ∈ tr, l.1 = t) ∧ s'.queueLock = none

section Move

variable (s : State τ) (t u : τ) (p : Pos)

@[simp] theorem move_queueLock : (s.move t p).queueLock = s.queueLock := rfl

@[simp] theorem move_pos_self : (s.move t p).pos t = p :=
  Function.update_self ..

@[simp] theorem move_pos_of_ne (h : u ≠ t) : (s.move t p).pos u = s.pos u :=
  Function.update_of_ne h _ _

end Move

variable {build : Build} {s s' : State τ} {l : τ × Act}

/-! ## Who is between lock and unlock -/

/-- Only the holder is between `pthread_mutex_lock` and `pthread_mutex_unlock`. -/
def Owned (s : State τ) : Prop :=
  ∀ t, (s.pos t).guarded = true → s.queueLock = some t

/-- A thread that moves to a place outside the guarded part, or stays in it, keeps
the others as they are. -/
theorem Owned.move (h : Owned s) {t : τ} {p : Pos}
    (hp : p.guarded = true → (s.pos t).guarded = true) : Owned (s.move t p) := by
  intro u hu
  rcases eq_or_ne u t with rfl | hut
  · rw [move_pos_self] at hu
    exact h u (hp hu)
  · rw [move_pos_of_ne _ _ _ _ hut] at hu
    exact h u hu

theorem Owned.step (h : Owned s) (hstep : (threads τ build).step s l s') : Owned s' := by
  obtain ⟨t, act⟩ := l
  cases act with
  | call f =>
    obtain ⟨-, rfl⟩ := hstep
    exact h.move fun hp => by cases f <;> cases hp
  | setKrnl f =>
    obtain ⟨-, rfl⟩ := hstep
    exact h.move fun hp => by cases hp
  | acquire f =>
    obtain ⟨-, hnone, rfl⟩ := hstep
    intro u hu
    by_cases hut : u = t
    · rw [hut]
    · have hold : (s.pos u).guarded = true := by
        rwa [← move_pos_of_ne s t u (.body f) hut]
      rw [h u hold] at hnone
      cases hnone
  | body f =>
    obtain ⟨hpos, rfl⟩ := hstep
    exact h.move fun _ => by rw [hpos]; rfl
  | release f =>
    obtain ⟨hpos, rfl⟩ := hstep
    intro u hu
    have hlock : s.queueLock = some t := h t (by rw [hpos]; rfl)
    rcases eq_or_ne u t with rfl | hut
    · rw [show ({ s.move u (.ret f) with queueLock := none } : State τ).pos u = .ret f from
        move_pos_self s u _] at hu
      cases hu
    · have hold : (s.pos u).guarded = true := by
        rwa [← move_pos_of_ne s t u (.ret f) hut]
      rw [h u hold] at hlock
      exact absurd (Option.some.inj hlock) hut
  | ret f =>
    obtain ⟨-, rfl⟩ := hstep
    exact h.move fun hp => by cases hp

/-! ## Releasing the lock -/

/-- The holder is on its way to `pthread_mutex_unlock`. -/
def Kept (build : Build) (s : State τ) : Prop :=
  ∀ t, s.queueLock = some t →
    (∃ f, s.pos t = .unlock f) ∨ ∃ f, s.pos t = .body f ∧ afterBody build f = .unlock f

/-- The step acquires the lock for a function that releases it. -/
def Releases (build : Build) : τ × Act → Prop
  | (_, .acquire f) => afterBody build f = .unlock f
  | _ => True

omit [DecidableEq τ] in
theorem Kept.guarded (h : Kept build s) {t : τ} (hlock : s.queueLock = some t) :
    (s.pos t).guarded = true := by
  rcases h t hlock with ⟨f, hf⟩ | ⟨f, hf, -⟩
  · rw [hf]
    rfl
  · rw [hf]
    rfl

omit [DecidableEq τ] in
/-- A thread outside the guarded part does not hold the lock. -/
theorem Kept.not_held (h : Kept build s) {t : τ} (hpos : (s.pos t).guarded = false) :
    s.queueLock ≠ some t := by
  intro hlock
  rw [h.guarded hlock] at hpos
  cases hpos

theorem Kept.step (h : Kept build s)
    (hstep : (threads τ build).step s l s') (hrel : Releases build l) : Kept build s' := by
  obtain ⟨t, act⟩ := l
  -- A step of another thread, or of the holder inside the guarded part.
  have hmove : ∀ p : Pos, (s.queueLock = some t →
      (∃ f, p = .unlock f) ∨ ∃ f, p = .body f ∧ afterBody build f = .unlock f) →
      Kept build (s.move t p) := by
    intro p hp u hu
    rcases eq_or_ne u t with rfl | hut
    · rw [move_pos_self]
      exact hp hu
    · rw [move_pos_of_ne _ _ _ _ hut]
      exact h u hu
  cases act with
  | call f =>
    obtain ⟨hpos, rfl⟩ := hstep
    exact hmove _ fun hlock => absurd hlock (h.not_held (by rw [hpos]; rfl))
  | setKrnl f =>
    obtain ⟨hpos, rfl⟩ := hstep
    exact hmove _ fun hlock => absurd hlock (h.not_held (by rw [hpos]; rfl))
  | acquire f =>
    obtain ⟨-, -, rfl⟩ := hstep
    intro u hu
    cases hu
    exact .inr ⟨f, move_pos_self s t _, hrel⟩
  | body f =>
    obtain ⟨hpos, rfl⟩ := hstep
    refine hmove _ fun hlock => ?_
    rcases h t hlock with ⟨f', hf'⟩ | ⟨f', hf', hafter⟩
    · rw [hpos] at hf'
      cases hf'
    · rw [hpos] at hf'
      cases hf'
      exact .inl ⟨f, hafter⟩
  | release f =>
    obtain ⟨-, rfl⟩ := hstep
    intro u hu
    cases hu
  | ret f =>
    obtain ⟨hpos, rfl⟩ := hstep
    exact hmove _ fun hlock => absurd hlock (h.not_held (by rw [hpos]; rfl))

/-- From `pthread_mutex_unlock` the holder releases the lock in one step. -/
theorem run_release {t : τ} {f : Fn} (hpos : s.pos t = .unlock f) :
    (threads τ build).Run s [(t, .release f)] { s.move t (.ret f) with queueLock := none } :=
  .snoc .nil ⟨hpos, rfl⟩

theorem Kept.lockSafe (h : Kept build s) : LockSafe build s := by
  constructor
  · intro t hlock hpos
    exact h.not_held (by rw [hpos]; rfl) hlock
  · intro t f hpos
    exact h.not_held (by rw [hpos]; rfl)
  · intro t hlock
    rcases h t hlock with ⟨f, hf⟩ | ⟨f, hf, hafter⟩
    · refine ⟨_, _, run_release hf, fun l hl => ?_, rfl⟩
      cases List.mem_singleton.mp hl
      rfl
    · have hbody : (threads τ build).Run s [(t, .body f)] (s.move t (.unlock f)) :=
        .snoc .nil ⟨hf, by rw [hafter]⟩
      refine ⟨_, _, hbody.append (run_release (move_pos_self s t _)), fun l hl => ?_, rfl⟩
      rcases List.mem_cons.mp hl with rfl | hl
      · rfl
      · cases List.mem_singleton.mp hl
        rfl

/-! ## Losing the lock -/

/-- The lock is held by a thread that is behind the last statement that could
release it. -/
def Lost (s : State τ) : Prop :=
  ∃ t, s.queueLock = some t ∧ ((s.pos t).guarded = true → s.pos t = .body .getProc)

theorem Lost.step {s s' : State τ} {l : τ × Act} (h : Lost s) (howned : Owned s)
    (hstep : (threads τ .mlq).step s l s') : Lost s' := by
  obtain ⟨t, hlock, hlost⟩ := h
  obtain ⟨u, act⟩ := l
  have hmove : ∀ p : Pos, (u = t → p.guarded = true → p = .body .getProc) → Lost (s.move u p) := by
    intro p hp
    refine ⟨t, hlock, ?_⟩
    rcases eq_or_ne t u with rfl | htu
    · rw [move_pos_self]
      exact hp rfl
    · rw [move_pos_of_ne _ _ _ _ htu]
      exact hlost
  cases act with
  | call f =>
    obtain ⟨-, rfl⟩ := hstep
    exact hmove _ fun _ hp => by cases f <;> cases hp
  | setKrnl f =>
    obtain ⟨-, rfl⟩ := hstep
    exact hmove _ fun _ hp => by cases hp
  | acquire f =>
    obtain ⟨-, hnone, -⟩ := hstep
    rw [hlock] at hnone
    cases hnone
  | body f =>
    obtain ⟨hpos, rfl⟩ := hstep
    refine hmove _ fun hut hp => ?_
    subst hut
    have hget := hlost (by rw [hpos]; rfl)
    rw [hpos] at hget
    cases hget
    cases hp
  | release f =>
    obtain ⟨hpos, -⟩ := hstep
    have hholder : s.queueLock = some u := howned u (by rw [hpos]; rfl)
    cases hlock.symm.trans hholder
    have hget := hlost (by rw [hpos]; rfl)
    rw [hpos] at hget
    cases hget
  | ret f =>
    obtain ⟨-, rfl⟩ := hstep
    exact hmove _ fun _ hp => by cases hp

/-- A lost lock stays lost. -/
theorem Lost.run {s s' : State τ} {tr : List (τ × Act)} (h : Lost s) (howned : Owned s)
    (hrun : (threads τ .mlq).Run s tr s') : Lost s' :=
  (hrun.invariant (I := fun s => Lost s ∧ Owned s) ⟨h, howned⟩
    fun _ _ _ ⟨hl, ho⟩ hstep => ⟨hl.step ho hstep, ho.step hstep⟩).1

theorem Lost.not_lockSafe {s : State τ} (h : Lost s) (howned : Owned s) : ¬ LockSafe .mlq s := by
  intro hsafe
  have hstays : ∀ tr s', (threads τ .mlq).Run s tr s' → Lost s' :=
    fun _ _ hrun => h.run howned hrun
  obtain ⟨t, hlock, -⟩ := h
  obtain ⟨tr, s', hrun, -, hfree⟩ := hsafe.released t hlock
  obtain ⟨t', hlock', -⟩ := hstays tr s' hrun
  rw [hlock'] at hfree
  cases hfree

/-! ## Runs -/

theorem Owned.init (h : (threads τ build).init s) : Owned s := by
  intro t ht
  rw [h.2 t] at ht
  cases ht

theorem Kept.init (h : (threads τ build).init s) : Kept build s := by
  intro t ht
  rw [h.1] at ht
  cases ht

theorem afterBody_mlq {f : Fn} : afterBody .mlq f = .unlock f ↔ f ≠ .getProc := by
  cases f <;> decide

/-- With the multi-level queue, the lock is in order after a run from the start
exactly if no `get_proc` has acquired it in the run. -/
theorem lockSafe_iff {s₀ s : State τ} {tr : List (τ × Act)} (h₀ : (threads τ .mlq).init s₀)
    (hrun : (threads τ .mlq).Run s₀ tr s) :
    LockSafe .mlq s ↔ ∀ t, (t, Act.acquire .getProc) ∉ tr := by
  have hinv : Owned s ∧ ((∀ t, (t, Act.acquire .getProc) ∉ tr) → Kept .mlq s) ∧
      ((∃ t, (t, Act.acquire .getProc) ∈ tr) → Lost s) := by
    refine hrun.trace_invariant (I := fun tr s => Owned s ∧
      ((∀ t, (t, Act.acquire .getProc) ∉ tr) → Kept .mlq s) ∧
      ((∃ t, (t, Act.acquire .getProc) ∈ tr) → Lost s))
      ⟨Owned.init h₀, fun _ => Kept.init h₀, fun ⟨_, hmem⟩ => by cases hmem⟩ ?_
    rintro tr s l s' - ⟨howned, hkept, hlost⟩ hstep
    refine ⟨howned.step hstep, fun hnone => ?_, fun ⟨t, hmem⟩ => ?_⟩
    · refine (hkept fun t hmem => hnone t (List.mem_append_left _ hmem)).step hstep ?_
      obtain ⟨t, act⟩ := l
      cases act with
      | acquire f =>
        exact afterBody_mlq.mpr fun hf =>
          hnone t (hf ▸ List.mem_append_right _ (List.mem_singleton.mpr rfl))
      | call f => trivial
      | setKrnl f => trivial
      | body f => trivial
      | release f => trivial
      | ret f => trivial
    · rcases List.mem_append.mp hmem with hmem | hmem
      · exact (hlost ⟨t, hmem⟩).step howned hstep
      · cases List.mem_singleton.mp hmem
        obtain ⟨-, -, rfl⟩ := hstep
        exact ⟨t, rfl, fun _ => move_pos_self s t _⟩
  obtain ⟨howned, hkept, hlost⟩ := hinv
  constructor
  · intro hsafe t hmem
    exact (hlost ⟨t, hmem⟩).not_lockSafe howned hsafe
  · intro hnone
    exact (hkept hnone).lockSafe

/-- Two threads, before any call. -/
def start : State Bool where
  queueLock := none
  pos := fun _ => .outside

theorem start_init (build : Build) : (threads Bool build).init start :=
  ⟨rfl, fun _ => rfl⟩

/-- A thread puts a process back and holds the lock. -/
theorem lockSafe_putProc :
    ∃ s, (threads Bool .mlq).Run start [(false, .call .putProc), (false, .setKrnl .putProc),
      (false, .acquire .putProc)] s ∧ LockSafe .mlq s := by
  obtain ⟨s, hrun⟩ : ∃ s, (threads Bool .mlq).Run start [(false, .call .putProc),
      (false, .setKrnl .putProc), (false, .acquire .putProc)] s :=
    ⟨_, .cons ⟨rfl, rfl⟩ (.cons ⟨rfl, rfl⟩ (.cons ⟨rfl, rfl, rfl⟩ .nil))⟩
  exact ⟨s, hrun, (lockSafe_iff (start_init .mlq) hrun).mpr (by decide)⟩

/-- One call of `get_proc`: its thread is back outside with the lock, and
nothing that any thread does releases it. -/
theorem getProc_keeps_lock :
    ∃ s, (threads Bool .mlq).Run start [(false, .call .getProc), (false, .acquire .getProc),
      (false, .body .getProc), (false, .ret .getProc)] s ∧
      s.queueLock = some false ∧ s.pos false = .outside ∧
      (∀ tr s', (threads Bool .mlq).Run s tr s' → s'.queueLock ≠ none) ∧ ¬ LockSafe .mlq s := by
  obtain ⟨s, hrun, hlock, hpos⟩ : ∃ s, (threads Bool .mlq).Run start [(false, .call .getProc),
      (false, .acquire .getProc), (false, .body .getProc), (false, .ret .getProc)] s ∧
      s.queueLock = some false ∧ s.pos false = .outside :=
    ⟨_, .cons ⟨rfl, rfl⟩ (.cons ⟨rfl, rfl, rfl⟩ (.cons ⟨rfl, rfl⟩ (.cons ⟨rfl, rfl⟩ .nil))),
      rfl, rfl⟩
  have howned : Owned s := hrun.invariant (I := Owned) (Owned.init (start_init .mlq))
    fun _ _ _ h hstep => h.step hstep
  have hlost : Lost s := ⟨false, hlock, fun h => by rw [hpos] at h; cases h⟩
  refine ⟨s, hrun, hlock, hpos, fun tr s' hrun' hfree => ?_, hlost.not_lockSafe howned⟩
  obtain ⟨t, hlock', -⟩ := hlost.run howned hrun'
  rw [hlock'] at hfree
  cases hfree

/-- Without the multi-level queue the lock is always in order. -/
theorem Reachable.lockSafe {s : State τ} (h : (threads τ .single).Reachable s) :
    LockSafe .single s := by
  have hinv : Owned s ∧ Kept .single s :=
    h.invariant (I := fun s => Owned s ∧ Kept .single s)
      (fun s hs => ⟨Owned.init hs, Kept.init hs⟩) fun s l s' ⟨howned, hkept⟩ hstep =>
        ⟨howned.step hstep, hkept.step hstep (by
          obtain ⟨t, act⟩ := l
          cases act with
          | acquire f => cases f <;> rfl
          | call f => trivial
          | setKrnl f => trivial
          | body f => trivial
          | release f => trivial
          | ret f => trivial)⟩
  exact hinv.2.lockSafe

end SchedLock

end SimpleOs
