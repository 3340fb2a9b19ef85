import SimpleOs.Common
import SimpleOs.Lib.LinkedList

/-!
# The page FIFO

`enlist_pgn_node` pushes a page in front of the list at `mm->fifo_pgn`,
`find_victim_page` takes the page at its end. The victim's predecessor is
reached with a trailing pointer, which is still null when the list has one node,
and the head pointer is not updated in that case either.

The list is modelled twice: in a heap with the pointers the code follows, and as
a Lean list, which the rest of the development uses.

Results:
1. `findVictimPage_refines`, `Holds.enlist`: the heap model does what the list
   model does, and ends in a fault where that one does.
2. `behaves_iff_neverSingle`: a sequence of calls is first in, first out exactly
   if no victim is asked for while one page is listed.
-/

namespace SimpleOs

namespace Fifo

open LinkedList

/-! ## The list in memory -/

/-- The heap of `pgn_t` nodes and `mm->fifo_pgn`. -/
structure State where
  heap : Heap Addr
  fifoPgn : Option ℕ

/-- No node, and a null head pointer. -/
def State.empty : State where
  heap := fun _ => none
  fifoPgn := none

/-- `enlist_pgn_node`. -/
def enlistPgnNode (malloc : Malloc Addr) (s : State) (pgn : Addr) : State :=
  let pnode := malloc.addr s.heap
  { heap := Function.update s.heap pnode (some ⟨pgn, s.fifoPgn⟩)
    fifoPgn := some pnode }

/-- `find_victim_page`: the victim and the memory after the call, or `ok none`
for the return value -1. -/
def findVictimPage (fuel : ℕ) (s : State) : Except Fault (Option (Addr × State)) :=
  match s.fifoPgn with
  | none => .ok none
  | some head =>
    match trailLast s.heap fuel none head with
    -- Or the walk met a pointer to no node.
    | none => .error .outOfFuel
    | some (prev, pg) =>
      match s.heap pg with
      | none => .error .wildDeref
      | some node =>
        -- `prev->pg_next = NULL`: `prev` is null if the loop made no round.
        match prev with
        | none => .error .nullDeref
        | some prev =>
          match s.heap prev with
          | none => .error .wildDeref
          | some prevNode =>
            let heap := Function.update s.heap prev (some { prevNode with next := none })
            .ok (some (node.val, { s with heap := Function.update heap pg none }))

/-! ## The list as a value -/

/-- `enlist_pgn_node` on the pages from the head on. -/
def enlistPgn (pgns : List Addr) (pgn : Addr) : List Addr :=
  pgn :: pgns

/-- `find_victim_page` on the pages from the head on. -/
def findVictim (pgns : List Addr) : Except Fault (Option (Addr × List Addr)) :=
  match pgns.getLast? with
  | none => .ok none
  | some pgn =>
    if pgns.dropLast = [] then .error .nullDeref
    else .ok (some (pgn, pgns.dropLast))

/-- The memory holds the pages `pgns`, from the head on. -/
def Holds (s : State) (pgns : List Addr) : Prop :=
  ∃ cells, Linked s.heap s.fifoPgn cells ∧ cells.map Prod.snd = pgns

theorem findVictim_nil : findVictim [] = .ok none := rfl

theorem findVictim_eq_none_iff {pgns : List Addr} : findVictim pgns = .ok none ↔ pgns = [] := by
  refine ⟨fun h => ?_, fun h => h ▸ findVictim_nil⟩
  unfold findVictim at h
  cases hlast : pgns.getLast? with
  | none => exact List.getLast?_eq_none_iff.mp hlast
  | some pgn =>
    rw [hlast] at h
    dsimp only at h
    split at h <;> cases h

theorem findVictim_singleton (v : Addr) : findVictim [v] = .error .nullDeref := rfl

theorem findVictim_snoc_snoc (pgns : List Addr) (p v : Addr) :
    findVictim (pgns ++ [p] ++ [v]) = .ok (some (v, pgns ++ [p])) := by
  unfold findVictim
  rw [List.getLast?_concat, List.dropLast_concat]
  exact if_neg (by simp)

theorem findVictim_eq_some {pgns rest : List Addr} {v : Addr}
    (h : findVictim pgns = .ok (some (v, rest))) :
    pgns.getLast? = some v ∧ rest = pgns.dropLast := by
  unfold findVictim at h
  cases hlast : pgns.getLast? with
  | none =>
    rw [hlast] at h
    cases h
  | some pgn =>
    rw [hlast] at h
    dsimp only at h
    split at h
    · cases h
    · cases h
      exact ⟨rfl, rfl⟩

theorem findVictim_eq_error {pgns : List Addr} {e : Fault} (h : findVictim pgns = .error e) :
    e = .nullDeref ∧ pgns.length = 1 := by
  induction pgns using List.reverseRecOn with
  | nil => cases h
  | append_singleton front v _ =>
    induction front using List.reverseRecOn with
    | nil =>
      cases h
      exact ⟨rfl, rfl⟩
    | append_singleton front p _ =>
      rw [findVictim_snoc_snoc] at h
      cases h

/-- A victim is found exactly if at least two pages are listed. -/
theorem two_le_length_iff (pgns : List Addr) :
    2 ≤ pgns.length ↔ ∃ v rest, findVictim pgns = .ok (some (v, rest)) := by
  induction pgns using List.reverseRecOn with
  | nil => simp [findVictim_nil]
  | append_singleton front v _ =>
    induction front using List.reverseRecOn with
    | nil => simp [findVictim_singleton]
    | append_singleton front p _ =>
      rw [findVictim_snoc_snoc]
      simp

theorem Holds.empty : Holds State.empty [] :=
  ⟨[], linked_nil_iff.mpr rfl, rfl⟩

theorem Holds.enlist {s : State} {pgns : List Addr} (h : Holds s pgns) (malloc : Malloc Addr)
    (hfin : s.heap.Bounded) (pgn : Addr) :
    Holds (enlistPgnNode malloc s pgn) (enlistPgn pgns pgn) := by
  obtain ⟨cells, hlinked, rfl⟩ := h
  exact ⟨_, hlinked.push (malloc.free s.heap hfin) pgn, rfl⟩

/-- `find_victim_page` on an empty list. -/
theorem findVictimPage_nil {s : State} (h : Holds s []) (fuel : ℕ) :
    findVictimPage fuel s = .ok none := by
  obtain ⟨cells, hlinked, hnil⟩ := h
  rw [List.map_eq_nil_iff] at hnil
  subst hnil
  have hhead : s.fifoPgn = none := hlinked.chain
  unfold findVictimPage
  rw [hhead]

/-- `find_victim_page` on a list of one page. -/
theorem findVictimPage_singleton {s : State} {v : Addr} {fuel : ℕ} (h : Holds s [v])
    (hfuel : 0 < fuel) : findVictimPage fuel s = .error .nullDeref := by
  obtain ⟨cells, hlinked, hone⟩ := h
  obtain ⟨⟨b, w⟩, rfl, rfl⟩ := List.map_eq_singleton_iff.mp hone
  obtain ⟨hhead, next, hnode, -⟩ := hlinked.chain
  have hchain : Chain s.heap (some b) ([] ++ [(b, w)]) none := hhead ▸ hlinked.chain
  have hwalk : trailLast s.heap fuel none b = some (none, b) := trailLast_eq hchain hfuel
  simp [findVictimPage, hhead, hwalk, hnode]

/-- `find_victim_page` on a list of two pages or more. -/
theorem findVictimPage_snoc_snoc {s : State} {pgns : List Addr} {p v : Addr} {fuel : ℕ}
    (h : Holds s (pgns ++ [p] ++ [v])) (hfuel : pgns.length + 1 < fuel) :
    ∃ s', findVictimPage fuel s = .ok (some (v, s')) ∧ Holds s' (pgns ++ [p]) ∧
      (s.heap.Bounded → s'.heap.Bounded) := by
  obtain ⟨cells, hlinked, hcells⟩ := h
  obtain ⟨cells', cell, rfl, hcells', hcell⟩ := List.map_eq_append_iff.mp hcells
  obtain ⟨front, back, rfl, rfl, hback⟩ := List.map_eq_append_iff.mp hcells'
  obtain ⟨⟨a, p'⟩, rfl, rfl⟩ := List.map_eq_singleton_iff.mp hback
  obtain ⟨⟨b, v'⟩, rfl, rfl⟩ := List.map_eq_singleton_iff.mp hcell
  obtain ⟨ha, hb, hrest⟩ := Linked.dropLast (by simpa using hlinked)
  obtain ⟨head, hhead⟩ : ∃ head, s.fifoPgn = some head := by
    have hchain := hlinked.chain
    cases front with
    | nil => exact ⟨_, hchain.1⟩
    | cons cell front => exact ⟨_, hchain.1⟩
  have hwalk : trailLast s.heap fuel none head = some (some a, b) := by
    rw [trailLast_eq (hhead ▸ hlinked.chain) (by simpa using hfuel)]
    simp
  refine ⟨⟨Function.update (Function.update s.heap a (some ⟨p', none⟩)) b none, s.fifoPgn⟩,
    ?_, ⟨_, hrest, by simp⟩, fun hfin => (hfin.update a _).update b _⟩
  simp only [findVictimPage, hhead, hwalk, ha, hb]

/-- The heap model refines the list model. -/
theorem findVictimPage_refines {s : State} {pgns : List Addr} {fuel : ℕ} (h : Holds s pgns)
    (hfuel : pgns.length ≤ fuel) :
    match findVictim pgns with
    | .error e => findVictimPage fuel s = .error e
    | .ok none => findVictimPage fuel s = .ok none
    | .ok (some (v, rest)) =>
      ∃ s', findVictimPage fuel s = .ok (some (v, s')) ∧ Holds s' rest := by
  induction pgns using List.reverseRecOn with
  | nil => exact findVictimPage_nil h fuel
  | append_singleton front v _ =>
    rw [List.length_append, List.length_singleton] at hfuel
    induction front using List.reverseRecOn with
    | nil => exact findVictimPage_singleton h hfuel
    | append_singleton front p _ =>
      rw [List.length_append, List.length_singleton] at hfuel
      obtain ⟨s', hfind, hholds, -⟩ := findVictimPage_snoc_snoc h hfuel
      rw [findVictim_snoc_snoc]
      exact ⟨s', hfind, hholds⟩

/-! ## Sequences of calls -/

/-- A call on the FIFO. -/
inductive Call
  | enlistPgnNode (pgn : Addr)
  | findVictimPage
  deriving DecidableEq

/-- The calls are first in, first out from the memory `s` on, in which the pages
`out` are listed, the earliest first. A victim is the earliest page and the rest
stays in order; -1 is returned exactly if there is no page; no call faults. -/
def Behaves (malloc : Malloc Addr) (fuel : ℕ) : State → List Addr → List Call → Prop
  | _, _, [] => True
  | s, out, .enlistPgnNode pgn :: calls =>
    Behaves malloc fuel (enlistPgnNode malloc s pgn) (out ++ [pgn]) calls
  | s, out, .findVictimPage :: calls =>
    match findVictimPage fuel s with
    | .error _ => False
    | .ok none => out = [] ∧ Behaves malloc fuel s out calls
    | .ok (some (v, s')) =>
      ∃ rest, out = v :: rest ∧ Holds s' rest.reverse ∧ Behaves malloc fuel s' rest calls

/-- No call of `find_victim_page` is made while exactly one page is listed, from
`n` listed pages on. -/
def NeverSingle : ℕ → List Call → Prop
  | _, [] => True
  | n, .enlistPgnNode _ :: calls => NeverSingle (n + 1) calls
  | n, .findVictimPage :: calls => n ≠ 1 ∧ NeverSingle (n - 1) calls

theorem behaves_iff {malloc : Malloc Addr} {fuel : ℕ} {calls : List Call} {s : State}
    {out : List Addr} (h : Holds s out.reverse) (hfin : s.heap.Bounded)
    (hfuel : out.length + calls.length ≤ fuel) :
    Behaves malloc fuel s out calls ↔ NeverSingle out.length calls := by
  induction calls generalizing s out with
  | nil => exact Iff.rfl
  | cons call calls ih =>
    rw [List.length_cons] at hfuel
    cases call with
    | enlistPgnNode pgn =>
      have hholds : Holds (enlistPgnNode malloc s pgn) (out ++ [pgn]).reverse := by
        rw [List.reverse_concat]
        exact h.enlist malloc hfin pgn
      have hih := ih hholds (hfin.update _ _) (by simp; omega)
      rw [List.length_append, List.length_singleton] at hih
      exact hih
    | findVictimPage =>
      unfold Behaves NeverSingle
      match out with
      | [] =>
        rw [findVictimPage_nil h]
        have hih := ih h hfin (by simp; omega)
        simpa using hih
      | [v] =>
        rw [findVictimPage_singleton h (by omega)]
        simp
      | v :: p :: rest =>
        have hrev : (v :: p :: rest).reverse = rest.reverse ++ [p] ++ [v] := by simp
        rw [List.length_cons, List.length_cons] at hfuel
        have hroom : rest.reverse.length + 1 < fuel := by
          rw [List.length_reverse]
          omega
        obtain ⟨s', hfind, hholds, hfin'⟩ := findVictimPage_snoc_snoc (hrev ▸ h) hroom
        rw [← List.reverse_cons] at hholds
        have hih := ih hholds (hfin' hfin) (by rw [List.length_cons]; omega)
        rw [hfind]
        constructor
        · rintro ⟨rest', heq, -, hrest⟩
          cases heq
          exact ⟨by simp, hih.mp hrest⟩
        · rintro ⟨-, hrest⟩
          exact ⟨_, rfl, hholds, hih.mpr hrest⟩

/-- Page replacement is first in, first out in a sequence of calls from an empty
list exactly if `find_victim_page` is never called while one page is listed. -/
theorem behaves_iff_neverSingle (malloc : Malloc Addr) (calls : List Call) (fuel : ℕ)
    (hfuel : calls.length ≤ fuel) :
    Behaves malloc fuel State.empty [] calls ↔ NeverSingle 0 calls :=
  behaves_iff Holds.empty ⟨0, fun _ _ => rfl⟩ (by simpa using hfuel)

/-- Two pages are listed and one is taken: the first one. -/
theorem behaves_twoPages :
    Behaves Malloc.least 3 State.empty [] [.enlistPgnNode 4, .enlistPgnNode 9, .findVictimPage] :=
  (behaves_iff_neverSingle Malloc.least _ 3 (by decide)).mpr
    ⟨by decide, trivial⟩

/-- One page is listed and taken: the predecessor that is to become the last
node is null. -/
theorem not_behaves_onePage :
    ¬ Behaves Malloc.least 2 State.empty [] [.enlistPgnNode 4, .findVictimPage] := by
  have hholds : Holds (enlistPgnNode Malloc.least State.empty 4) [4] :=
    Holds.empty.enlist Malloc.least ⟨0, fun _ _ => rfl⟩ 4
  unfold Behaves Behaves
  rw [findVictimPage_singleton hholds (by decide)]
  exact id

end Fifo

end SimpleOs
