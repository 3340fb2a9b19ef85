import SimpleOs.Lib.Mutex

/-!
# Critical sections one after the other

A call that takes the lock first and gives it last is one step on the memory for
everybody else, if the threads outside the lock leave the memory alone.

* `Program.serial`: the calls as steps of a system on the memory.
* `Program.Sections`: the calls that lock do it at the start and to the end, and the
  others do not change the memory.
* `serialized_of_run`: every run of the threads is a run of `serial`, with the calls of
  each thread in its order.
* `Inside.run_to_end`, `Inside.finishes`: the holder of the lock gets to the end of its
  call alone.
-/

namespace Mutex

variable {τ κ π μ : Type*} {P : Program κ π μ}

namespace Program

/-- A statement that neither takes nor gives the lock. -/
def Keeps (P : Program κ π μ) (x y : π × μ) : Prop :=
  P.next x.2 x.1 = some (.keep, y)

/-- What a thread gets to alone. -/
abbrev Alone (P : Program κ π μ) : π × μ → π × μ → Prop :=
  Relation.ReflTransGen P.Keeps

/-- A call that has taken the lock on the memory `m`, and where it is now. -/
def Inside (P : Program κ π μ) (c : κ) (m : μ) (x : π × μ) : Prop :=
  ∃ p, P.next m (P.entry c) = some (.take, p, m) ∧ P.Alone (p, m) x

/-- The calls, each from taking the lock to giving it. -/
def serial (P : Program κ π μ) : Lts μ κ where
  init _ := True
  step m c m' := ∃ x, P.Inside c m x ∧ P.next x.2 x.1 = some (.give, P.idle, m')

/-- The calls in `locks` take the lock first and give it last. The others stay in
`bare`, where admitted statements touch neither the lock nor the memory. -/
structure Sections (P : Program κ π μ) (locks : κ → Bool) (locked bare : π → Bool)
    (ok : μ → π → Prop) : Prop where
  discipline : P.Discipline locked
  idle : ∀ mem, P.next mem P.idle = none
  entry : ∀ c, P.entry c ≠ P.idle
  bareIdle : bare P.idle = false
  first : ∀ c mem act p mem', locks c = true → P.next mem (P.entry c) = some (act, p, mem') →
    act = .take ∧ mem' = mem
  last : ∀ mem p p' mem', P.next mem p = some (.give, p', mem') → p' = P.idle
  bareEntry : ∀ c, locks c = false → bare (P.entry c) = true
  bareNext : ∀ mem p act p' mem', bare p = true → ok mem p →
    P.next mem p = some (act, p', mem') → act = .keep ∧ mem' = mem ∧ (p' = P.idle ∨ bare p' = true)

end Program

theorem Program.Inside.keep {c : κ} {m mem mem' : μ} {p p' : π} (h : P.Inside c m (p, mem))
    (hnext : P.next mem p = some (.keep, p', mem')) : P.Inside c m (p', mem') := by
  obtain ⟨q, htake, halone⟩ := h
  exact ⟨q, htake, halone.tail hnext⟩

/-! ## The end of a call -/

/-- Where no statement keeps the lock, a thread alone has got to the end. -/
theorem alone_end {x y z : π × μ} (hy : P.Alone x y) (hz : P.Alone x z)
    (hend : ∀ w, ¬ P.Keeps z w) : P.Alone y z := by
  have hunique : Relator.RightUnique P.Keeps := fun a b c hb hc =>
    congrArg Prod.snd (Option.some.inj (hb.symm.trans hc))
  rcases Relation.ReflTransGen.total_of_right_unique hunique hy hz with h | h
  · exact h
  · rcases Relation.ReflTransGen.cases_head h with rfl | ⟨w, hw, -⟩
    · exact .refl
    · exact absurd hw (hend w)

/-- The memory after a call depends on the memory before it only. -/
theorem serial_unique {c : κ} {m m₁ m₂ : μ} (h₁ : P.serial.step m c m₁)
    (h₂ : P.serial.step m c m₂) : m₁ = m₂ := by
  obtain ⟨x, ⟨p, hp, hx⟩, hgive⟩ := h₁
  obtain ⟨y, ⟨q, hq, hy⟩, hgive'⟩ := h₂
  cases hp.symm.trans hq
  have hend : ∀ w, ¬ P.Keeps y w := fun w hw => by cases hgive'.symm.trans hw
  rcases Relation.ReflTransGen.cases_head (alone_end hx hy hend) with rfl | ⟨w, hw, -⟩
  · cases hgive.symm.trans hgive'
    rfl
  · cases hgive.symm.trans hw

/-- A call that gets to a position without a statement is never over. -/
theorem Program.Inside.not_over {c : κ} {m m' : μ} {y : π × μ} (hy : P.Inside c m y)
    (hstuck : P.next y.2 y.1 = none) : ¬ P.serial.step m c m' := by
  rintro ⟨x, ⟨p, hp, hx⟩, hgive⟩
  obtain ⟨q, hq, hy⟩ := hy
  cases hp.symm.trans hq
  have hend : ∀ w, ¬ P.Keeps y w := fun w hw => by cases hstuck.symm.trans hw
  rcases Relation.ReflTransGen.cases_head (alone_end hx hy hend) with rfl | ⟨w, hw, -⟩
  · cases hgive.symm.trans hstuck
  · cases hgive.symm.trans hw

/-! ## Runs -/

variable {locks : κ → Bool} {locked bare : π → Bool} {ok : μ → π → Prop} {m m' m₀ : μ}
  {s s' : State τ π μ} {t u : τ} {c : κ} {k : Option κ} {tr : List (τ × Act κ)}
  {done : List (τ × κ)} {cur : τ → Option κ}

/-- The calls of `t` that lock. -/
def callsOf [DecidableEq τ] (locks : κ → Bool) (t : τ) (tr : List (τ × Act κ)) : List κ :=
  tr.filterMap fun l =>
    match l.2 with
    | .call c => if l.1 = t ∧ locks c = true then some c else none
    | .stmt => none

/-- The calls of `t` among those that are over. -/
def doneBy [DecidableEq τ] (t : τ) (done : List (τ × κ)) : List κ :=
  (done.filter fun d => d.1 = t).map Prod.snd

/-- Where `t` is in its call, if it is in one; `m` is the memory behind the last call
that is over. -/
inductive Phase (P : Program κ π μ) (locks : κ → Bool) (bare : π → Bool) (m : μ)
    (s : State τ π μ) (t : τ) : Option κ → Prop
  | idle : s.lock ≠ some t → s.pos t = P.idle → Phase P locks bare m s t none
  | bare {c : κ} : s.lock ≠ some t → locks c = false → bare (s.pos t) = true →
      Phase P locks bare m s t (some c)
  | waiting {c : κ} : s.lock ≠ some t → locks c = true → s.pos t = P.entry c →
      Phase P locks bare m s t (some c)
  | inside {c : κ} : s.lock = some t → locks c = true → P.Inside c m (s.pos t, s.mem) →
      Phase P locks bare m s t (some c)

/-- The calls in `done` are over, each thread is in the call `cur`, and `m` is the
memory behind the former. -/
structure Serialized [DecidableEq τ] (P : Program κ π μ) (locks : κ → Bool) (bare : π → Bool)
    (m₀ : μ) (tr : List (τ × Act κ)) (s : State τ π μ) (done : List (τ × κ))
    (cur : τ → Option κ) (m : μ) : Prop where
  serial : P.serial.Run m₀ (done.map Prod.snd) m
  free : s.lock = none → s.mem = m
  phase : ∀ t, Phase P locks bare m s t (cur t)
  calls : ∀ t, callsOf locks t tr = doneBy t done ++ ((cur t).filter locks).toList

/-- A thread without the lock stays where it is while others move. -/
theorem Phase.other (h : Phase P locks bare m s u k) (hlock : s.lock ≠ some u)
    (hlock' : s'.lock ≠ some u) (hpos : s'.pos u = s.pos u) (m' : μ) :
    Phase P locks bare m' s' u k := by
  cases h with
  | idle _ hidle => exact .idle hlock' (hpos.trans hidle)
  | bare _ hc hbare => exact .bare hlock' hc (hpos ▸ hbare)
  | waiting _ hc hentry => exact .waiting hlock' hc (hpos.trans hentry)
  | inside hheld _ _ => exact absurd hheld hlock

/-- So does one with it, while nobody changes the memory. -/
theorem Phase.frame (h : Phase P locks bare m s u k) (hlock : s'.lock = s.lock)
    (hmem : s'.mem = s.mem) (hpos : s'.pos u = s.pos u) : Phase P locks bare m s' u k := by
  cases h with
  | idle hne hidle => exact .idle (hlock ▸ hne) (hpos.trans hidle)
  | bare hne hc hbare => exact .bare (hlock ▸ hne) hc (hpos ▸ hbare)
  | waiting hne hc hentry => exact .waiting (hlock ▸ hne) hc (hpos.trans hentry)
  | inside hheld hc hin => exact .inside (hlock.trans hheld) hc (by rw [hpos, hmem]; exact hin)

/-- The holder of the lock is inside. -/
theorem Phase.of_lock (h : Phase P locks bare m s t k) (hlock : s.lock = some t) :
    ∃ c, k = some c ∧ locks c = true ∧ P.Inside c m (s.pos t, s.mem) := by
  cases h with
  | idle hne _ | bare hne _ _ | waiting hne _ _ => exact absurd hlock hne
  | inside _ hc hin => exact ⟨_, rfl, hc, hin⟩

/-- A thread at `idle` is in no call. -/
theorem Phase.of_idle (hP : P.Sections locks locked bare ok) (hheld : Held locked s)
    (h : Phase P locks bare m s t k) (hidle : s.pos t = P.idle) : k = none ∧ s.lock ≠ some t := by
  cases h with
  | idle hne _ => exact ⟨rfl, hne⟩
  | bare _ _ hbare =>
    rw [hidle, hP.bareIdle] at hbare
    cases hbare
  | waiting _ _ hentry => exact absurd (hentry.symm.trans hidle) (hP.entry _)
  | inside hlock _ _ =>
    have hlocked := (hheld t).mp hlock
    rw [hidle, hP.discipline.idle] at hlocked
    cases hlocked

section Step

variable [DecidableEq τ]

theorem callsOf_call (u : τ) :
    callsOf locks u (tr ++ [(t, .call c)]) =
      callsOf locks u tr ++ if t = u ∧ locks c = true then [c] else [] := by
  unfold callsOf
  rw [List.filterMap_append]
  by_cases h : t = u ∧ locks c = true
  · simp [h]
  · simp [h]

theorem callsOf_stmt (u : τ) : callsOf locks u (tr ++ [(t, .stmt)]) = callsOf locks u tr := by
  unfold callsOf
  rw [List.filterMap_append]
  exact List.append_nil _

theorem doneBy_snoc (u : τ) :
    doneBy u (done ++ [(t, c)]) = doneBy u done ++ if t = u then [c] else [] := by
  unfold doneBy
  rw [List.filter_append, List.map_append]
  by_cases h : t = u
  · simp [h]
  · simp [h]

/-- The calls that are over lock. -/
theorem Serialized.locks_of_mem (h : Serialized P locks bare m₀ tr s done cur m)
    (hmem : (t, c) ∈ done) : locks c = true := by
  have hdone : c ∈ doneBy t done := List.mem_map.mpr ⟨(t, c), by simpa using hmem, rfl⟩
  have hcalls : c ∈ callsOf locks t tr := by
    rw [h.calls t]
    exact List.mem_append_left _ hdone
  obtain ⟨⟨u, act⟩, -, hact⟩ := List.mem_filterMap.mp hcalls
  cases act with
  | stmt => cases hact
  | call d =>
    dsimp only at hact
    split at hact
    · next hd =>
      cases hact
      exact hd.2
    · cases hact

theorem filter_locks (hc : locks c = true) : (some c).filter locks = some c := by
  simp [Option.filter, hc]

theorem filter_bare (hc : locks c = false) : (some c).filter locks = none := by
  simp [Option.filter, hc]

theorem Serialized.call (hP : P.Sections locks locked bare ok) (hheld : Held locked s)
    (h : Serialized P locks bare m₀ tr s done cur m) (hidle : s.pos t = P.idle) :
    Serialized P locks bare m₀ (tr ++ [(t, .call c)]) (s.move t (P.entry c)) done
      (Function.update cur t (some c)) m := by
  obtain ⟨hnone, hne⟩ := (h.phase t).of_idle hP hheld hidle
  refine ⟨h.serial, h.free, fun u => ?_, fun u => ?_⟩
  · rcases eq_or_ne u t with rfl | hu
    · rw [Function.update_self]
      cases hc : locks c with
      | true => exact .waiting hne hc (s.move_pos_self u _)
      | false => exact .bare hne hc (by rw [State.move_pos_self]; exact hP.bareEntry c hc)
    · rw [Function.update_of_ne hu]
      exact (h.phase u).frame rfl rfl (Function.update_of_ne hu _ _)
  · rw [callsOf_call, h.calls u]
    rcases eq_or_ne u t with rfl | hu
    · rw [Function.update_self, hnone]
      cases hc : locks c with
      | true => rw [filter_locks hc, if_pos ⟨rfl, rfl⟩, Option.filter_none, Option.toList_none,
          List.append_nil, Option.toList_some]
      | false => rw [filter_bare hc, if_neg (by simp), Option.filter_none, List.append_nil]
    · rw [Function.update_of_ne hu, if_neg fun heq => hu heq.1.symm, List.append_nil]

/-- A statement of a call that does not lock. -/
theorem Serialized.bareStmt (h : Serialized P locks bare m₀ tr s done cur m)
    (hcur : cur t = some c) (hne : s.lock ≠ some t) (hc : locks c = false) {p : π}
    (hp : p = P.idle ∨ bare p = true) :
    ∃ cur', Serialized P locks bare m₀ (tr ++ [(t, .stmt)]) (s.move t p) done cur' m := by
  have hother : ∀ u, u ≠ t → Phase P locks bare m (s.move t p) u (cur u) := fun u hu =>
    (h.phase u).frame rfl rfl (Function.update_of_ne hu _ _)
  rcases hp with rfl | hp
  · refine ⟨Function.update cur t none, h.serial, h.free, fun u => ?_, fun u => ?_⟩
    · rcases eq_or_ne u t with rfl | hu
      · rw [Function.update_self]
        exact .idle hne (s.move_pos_self u _)
      · rw [Function.update_of_ne hu]
        exact hother u hu
    · rw [callsOf_stmt, h.calls u]
      rcases eq_or_ne u t with rfl | hu
      · rw [Function.update_self, hcur, filter_bare hc]
        rfl
      · rw [Function.update_of_ne hu]
  · refine ⟨cur, h.serial, h.free, fun u => ?_, fun u => by rw [callsOf_stmt, h.calls u]⟩
    rcases eq_or_ne u t with rfl | hu
    · rw [hcur]
      exact .bare hne hc (by rw [State.move_pos_self]; exact hp)
    · exact hother u hu

/-- The lock is taken. -/
theorem Serialized.take (h : Serialized P locks bare m₀ tr s done cur m)
    (hcur : cur t = some c) (hc : locks c = true) (hfree : s.lock = none) {p : π}
    (hnext : P.next s.mem (P.entry c) = some (.take, p, s.mem)) :
    Serialized P locks bare m₀ (tr ++ [(t, .stmt)]) ⟨some t, Function.update s.pos t p, s.mem⟩
      done cur m := by
  refine ⟨h.serial, nofun, fun u => ?_, fun u => by rw [callsOf_stmt, h.calls u]⟩
  rcases eq_or_ne u t with rfl | hu
  · rw [hcur]
    refine .inside rfl hc ⟨p, h.free hfree ▸ hnext, ?_⟩
    show P.Alone (p, m) (Function.update s.pos u p u, s.mem)
    rw [Function.update_self, h.free hfree]
  · exact (h.phase u).other (by rw [hfree]; nofun) (fun heq => hu (Option.some.inj heq).symm)
      (Function.update_of_ne hu _ _) m

section Held

variable (h : Serialized P locks bare m₀ tr s done cur m) (hcur : cur t = some c)
  (hc : locks c = true) (hheld : s.lock = some t) (hin : P.Inside c m (s.pos t, s.mem))
  {p : π} {mem : μ}
include h hcur hc hheld hin

/-- The holder of the lock goes on. -/
theorem Serialized.keep (hnext : P.next s.mem (s.pos t) = some (.keep, p, mem)) :
    Serialized P locks bare m₀ (tr ++ [(t, .stmt)]) ⟨s.lock, Function.update s.pos t p, mem⟩
      done cur m := by
  obtain ⟨q, htake, halone⟩ := hin
  refine ⟨h.serial, fun hnone => ?_, fun u => ?_, fun u => by rw [callsOf_stmt, h.calls u]⟩
  · cases hnone.symm.trans hheld
  · rcases eq_or_ne u t with rfl | hu
    · rw [hcur]
      refine .inside hheld hc ⟨q, htake, halone.tail ?_⟩
      show P.next s.mem (s.pos u) = some (.keep, Function.update s.pos u p u, mem)
      rw [Function.update_self]
      exact hnext
    · have hne : s.lock ≠ some u := fun heq => hu (Option.some.inj (heq.symm.trans hheld))
      refine (h.phase u).other hne ?_ (Function.update_of_ne hu _ _) m
      exact hne

/-- The lock is given, and the call is over. -/
theorem Serialized.give (hnext : P.next s.mem (s.pos t) = some (.give, P.idle, mem)) :
    Serialized P locks bare m₀ (tr ++ [(t, .stmt)]) ⟨none, Function.update s.pos t P.idle, mem⟩
      (done ++ [(t, c)]) (Function.update cur t none) mem := by
  refine ⟨?_, fun _ => rfl, fun u => ?_, fun u => ?_⟩
  · rw [List.map_append]
    exact h.serial.snoc ⟨_, hin, hnext⟩
  · rcases eq_or_ne u t with rfl | hu
    · rw [Function.update_self]
      exact .idle (fun heq => by cases heq) (Function.update_self ..)
    · rw [Function.update_of_ne hu]
      have hne : s.lock ≠ some u := fun heq => hu (Option.some.inj (heq.symm.trans hheld))
      exact (h.phase u).other hne (fun heq => by cases heq) (Function.update_of_ne hu _ _) mem
  · rw [callsOf_stmt, h.calls u, doneBy_snoc]
    rcases eq_or_ne u t with rfl | hu
    · rw [Function.update_self, hcur, filter_locks hc, if_pos rfl]
      exact (List.append_nil _).symm
    · rw [Function.update_of_ne hu, if_neg hu.symm, List.append_nil]

end Held

/-- One statement, by where its thread is. -/
theorem Serialized.stmt (hP : P.Sections locks locked bare ok)
    (h : Serialized P locks bare m₀ tr s done cur m) (hok : ok s.mem (s.pos t))
    (hstep : (P.threads τ).step s (t, .stmt) s') :
    ∃ done' cur' m', Serialized P locks bare m₀ (tr ++ [(t, .stmt)]) s' done' cur' m' := by
  obtain ⟨act, p, mem, lock, hnext, hlock, rfl⟩ := hstep
  obtain ⟨k, hcur⟩ : ∃ k, cur t = k := ⟨_, rfl⟩
  have hphase := h.phase t
  rw [hcur] at hphase
  cases hphase with
  | idle _ hidle =>
    rw [hidle, hP.idle] at hnext
    cases hnext
  | bare hne hc hbare =>
    obtain ⟨rfl, rfl, hp⟩ := hP.bareNext _ _ _ _ _ hbare hok hnext
    cases hlock
    obtain ⟨cur', h'⟩ := h.bareStmt hcur hne hc hp
    exact ⟨done, cur', m, h'⟩
  | waiting hne hc hentry =>
    rw [hentry] at hnext
    obtain ⟨rfl, rfl⟩ := hP.first _ _ _ _ _ hc hnext
    cases hfree : s.lock with
    | some v =>
      rw [hfree] at hlock
      cases hlock
    | none =>
      rw [hfree] at hlock
      cases hlock
      exact ⟨done, cur, m, h.take hcur hc hfree hnext⟩
  | inside hheld hc hin =>
    cases act with
    | keep =>
      cases hlock
      exact ⟨done, cur, m, h.keep hcur hc hheld hin hnext⟩
    | take =>
      rw [hheld] at hlock
      cases hlock
    | give =>
      cases hlock
      obtain rfl := hP.last _ _ _ _ hnext
      exact ⟨_, _, mem, h.give hcur hc hheld hin hnext⟩

/-- Every run of the threads is a run of the calls one after the other. -/
theorem serialized_of_run (hP : P.Sections locks locked bare ok) {s₀ : State τ π μ}
    (h₀ : (P.threads τ).init s₀) (hrun : ((P.threads τ).restrict (Admits ok)).Run s₀ tr s) :
    ∃ done cur m, Serialized P locks bare s₀.mem tr s done cur m := by
  induction hrun with
  | nil =>
    refine ⟨[], fun _ => none, s₀.mem, .nil, fun _ => rfl, fun t => ?_, fun t => rfl⟩
    exact .idle (by rw [h₀.1]; nofun) (h₀.2 t)
  | snoc hrun hstep ih =>
    obtain ⟨done, cur, m, h⟩ := ih
    obtain ⟨hst, hok⟩ := hstep
    next tr s s' l =>
    obtain ⟨t, act⟩ := l
    cases act with
    | call c =>
      obtain ⟨hidle, rfl⟩ := hst
      exact ⟨done, _, m, h.call hP (hP.discipline.held_iff h₀ hrun.of_restrict) hidle⟩
    | stmt => exact h.stmt hP (hok rfl) hst

theorem step_at {y : π × μ} {act : LockAct} {p : π} {mem : μ} {lock lock' : Option τ}
    (hnext : P.next y.2 y.1 = some (act, p, mem)) (hlock : act.apply t lock = some lock')
    (pos : τ → π) :
    (P.threads τ).step ⟨lock, Function.update pos t y.1, y.2⟩ (t, .stmt)
      ⟨lock', Function.update pos t p, mem⟩ := by
  refine ⟨act, p, mem, lock', ?_, hlock, ?_⟩
  · show P.next y.2 (Function.update pos t y.1 t) = _
    rw [Function.update_self]
    exact hnext
  · show _ = State.mk lock' (Function.update (Function.update pos t y.1) t p) mem
    rw [Function.update_idem]

/-- What a thread gets to alone is a run of the threads. -/
theorem run_alone {x y : π × μ} (h : P.Alone x y) {s : State τ π μ} (hpos : s.pos t = x.1)
    (hmem : s.mem = x.2) :
    ∃ tr, (P.threads τ).Run s tr ⟨s.lock, Function.update s.pos t y.1, y.2⟩ ∧
      ∀ l ∈ tr, l.1 = t := by
  induction h with
  | refl =>
    refine ⟨[], ?_, nofun⟩
    rw [← hpos, ← hmem, Function.update_eq_self]
    exact .nil
  | tail _ hstep ih =>
    obtain ⟨tr, hrun, hmine⟩ := ih
    refine ⟨tr ++ [(t, .stmt)], hrun.snoc (step_at hstep rfl s.pos), fun l hl => ?_⟩
    rcases List.mem_append.mp hl with hl | hl
    · exact hmine l hl
    · rw [List.mem_singleton.mp hl]

section Inside

variable (hin : P.Inside c m (s.pos t, s.mem))
include hin

/-- A call inside gets alone to where no statement keeps the lock. -/
theorem Program.Inside.run_to_end {y : π × μ} (hy : P.Inside c m y) (hend : ∀ w, ¬ P.Keeps y w) :
    ∃ tr, (P.threads τ).Run s tr ⟨s.lock, Function.update s.pos t y.1, y.2⟩ ∧
      ∀ l ∈ tr, l.1 = t := by
  obtain ⟨p, hp, hx⟩ := hin
  obtain ⟨q, hq, hy⟩ := hy
  cases hp.symm.trans hq
  exact run_alone (alone_end hx hy hend) rfl rfl

/-- Whatever the other threads are at, the holder of the lock gets to the end of its
call, and gives the lock. -/
theorem Program.Inside.finishes (hserial : P.serial.step m c m') :
    ∃ tr s', (P.threads τ).Run s tr s' ∧ (∀ l ∈ tr, l.1 = t) ∧ s'.lock = none ∧
      s'.pos t = P.idle ∧ s'.mem = m' := by
  obtain ⟨y, hy, hgive⟩ := hserial
  have hend : ∀ w, ¬ P.Keeps y w := fun w hw => by cases hgive.symm.trans hw
  obtain ⟨tr, hrun, hmine⟩ := hin.run_to_end hy hend
  refine ⟨tr ++ [(t, .stmt)], _, hrun.snoc (step_at hgive rfl s.pos), fun l hl => ?_, rfl,
    Function.update_self .., rfl⟩
  rcases List.mem_append.mp hl with hl | hl
  · exact hmine l hl
  · rw [List.mem_singleton.mp hl]

end Inside

end Step

end Mutex
