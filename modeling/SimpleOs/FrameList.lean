import SimpleOs.Common
import SimpleOs.Memphy
import SimpleOs.Lib.LinkedList
import SimpleOs.Lib.Lts

/-!
# The free frames in memory

`MEMPHY_format` builds the list of free frames of a device node by node,
`MEMPHY_get_freefp` takes its first node and `MEMPHY_put_freefp` adds one in
front. The first node of a new list is not linked until the second is made, so
the list is well formed from two frames on.

Results:
1. `memphyFormat_holds`: what the loop builds.
2. `memphyGetFreefp_refines`, `Holds.put`: the calls do in memory what they do to
   the list of frames of a `Memphy`.
3. `reachable_conserved`: over any history of calls, every frame is either free
   or handed out, and never both.
-/

namespace SimpleOs

namespace FrameList

open LinkedList

/-! ## The list in memory -/

/-- The heap of `framephy_struct` nodes and `mp->free_fp_list`. -/
structure State where
  heap : Heap Addr
  freeFpList : Option ℕ

/-- The loop of `MEMPHY_format` with `n` frames to come, the next of which is
`iter`; `fst` is the last node so far. -/
def formatLoop (malloc : Malloc Addr) : ℕ → ℕ → ℕ → Heap Addr → Except Fault (Heap Addr)
  | 0, _, _, heap => .ok heap
  | n + 1, iter, fst, heap =>
    let newfst := malloc.addr heap
    let heap := Function.update heap newfst (some ⟨BitVec.ofNat 64 iter, none⟩)
    match heap fst with
    | none => .error .wildDeref
    | some node =>
      let heap := Function.update heap fst (some { node with next := some newfst })
      formatLoop malloc n (iter + 1) newfst heap

/-- The number of frames, `mp->maxsz / pagesz`. -/
def numfp (maxsz pagesz : BitVec 32) : ℤ :=
  maxsz.toInt.tdiv pagesz.toInt

/-- `MEMPHY_format`: the return value and the memory after the call. `raw` is
what `malloc` leaves in `fp_next` of the first node. -/
def memphyFormat (malloc : Malloc Addr) (raw : Option ℕ) (maxsz pagesz : BitVec 32) (s : State) :
    Except Fault (ℤ × State) :=
  if numfp maxsz pagesz ≤ 0 then .ok (-1, s)
  else do
    let fst := malloc.addr s.heap
    let heap := Function.update s.heap fst (some ⟨0, raw⟩)
    let heap ← formatLoop malloc ((numfp maxsz pagesz).toNat - 1) 1 fst heap
    return (0, { heap := heap, freeFpList := some fst })

/-- `MEMPHY_get_freefp`: the frame, or `none` for -1, and the memory after the
call. -/
def memphyGetFreefp (s : State) : Except Fault (Option Addr × State) :=
  match s.freeFpList with
  | none => .ok (none, s)
  | some fp =>
    match s.heap fp with
    | none => .error .wildDeref
    | some node =>
      .ok (some node.val, { heap := Function.update s.heap fp none, freeFpList := node.next })

/-- `MEMPHY_put_freefp`. -/
def memphyPutFreefp (malloc : Malloc Addr) (s : State) (fpn : Addr) : State :=
  let newnode := malloc.addr s.heap
  { heap := Function.update s.heap newnode (some ⟨fpn, s.freeFpList⟩)
    freeFpList := some newnode }

/-! ## The list as a value -/

/-- The memory holds the free frames of `mp`. -/
def Holds (s : State) (mp : Memphy Addr) : Prop :=
  s.heap.Bounded ∧
    ∃ cells, Linked s.heap s.freeFpList cells ∧ cells.map Prod.snd = mp.freeFpList

theorem Holds.put {s : State} {mp : Memphy Addr} (h : Holds s mp) (malloc : Malloc Addr)
    (fpn : Addr) : Holds (memphyPutFreefp malloc s fpn) (mp.putFreefp fpn) := by
  obtain ⟨hfin, cells, hlinked, hcells⟩ := h
  refine ⟨hfin.update _ _, _, hlinked.push (malloc.free s.heap hfin) fpn, ?_⟩
  rw [List.map_cons, hcells]
  rfl

/-- `MEMPHY_get_freefp` in memory does what it does to the list. -/
theorem memphyGetFreefp_refines {s : State} {mp : Memphy Addr} (h : Holds s mp) :
    match mp.getFreefp with
    | none => memphyGetFreefp s = .ok (none, s)
    | some (fpn, mp') => ∃ s', memphyGetFreefp s = .ok (some fpn, s') ∧ Holds s' mp' := by
  obtain ⟨hfin, cells, hlinked, hcells⟩ := h
  unfold Memphy.getFreefp memphyGetFreefp
  rw [← hcells]
  cases cells with
  | nil =>
    have hhead : s.freeFpList = none := hlinked.chain
    rw [hhead]
    rfl
  | cons cell cells =>
    obtain ⟨a, fpn⟩ := cell
    obtain ⟨hhead, next, hnode, hrest⟩ := hlinked.pop
    rw [hhead]
    dsimp only
    rw [hnode]
    exact ⟨_, rfl, hfin.update _ _, cells, hrest, rfl⟩

/-! ## The loop of `MEMPHY_format` -/

/-- The frames `iter` to `iter + n - 1`. -/
def framesFrom (iter n : ℕ) : List Addr :=
  (List.range n).map fun i => BitVec.ofNat 64 (iter + i)

theorem framesFrom_succ (iter n : ℕ) :
    framesFrom iter (n + 1) = BitVec.ofNat 64 iter :: framesFrom (iter + 1) n := by
  unfold framesFrom
  rw [List.range_succ_eq_map, List.map_cons, List.map_map]
  refine congrArg (BitVec.ofNat 64 iter :: ·) (List.map_congr_left fun i _ => ?_)
  show BitVec.ofNat 64 (iter + (i + 1)) = BitVec.ofNat 64 (iter + 1 + i)
  rw [Nat.add_assoc, Nat.add_comm 1 i]

theorem length_framesFrom (iter n : ℕ) : (framesFrom iter n).length = n := by
  unfold framesFrom
  rw [List.length_map, List.length_range]

/-- The nodes up to `fst` are chained, and what `fst` points to is set by the
next round, if there is one. -/
theorem formatLoop_spec (malloc : Malloc Addr) {n : ℕ} (iter : ℕ) {fst : ℕ} {heap : Heap Addr}
    {p next : Option ℕ} {cells : List (ℕ × Addr)} {fpn : Addr} (hfin : heap.Bounded)
    (hchain : Chain heap p cells (some fst)) (hnode : heap fst = some ⟨fpn, next⟩)
    (hnodup : (cells.map Prod.fst ++ [fst]).Nodup) (hlast : n = 0 → next = none) :
    ∃ heap' cells', formatLoop malloc n iter fst heap = .ok heap' ∧ heap'.Bounded ∧
      Linked heap' p cells' ∧
      cells'.map Prod.snd = cells.map Prod.snd ++ fpn :: framesFrom iter n := by
  induction n generalizing iter fst heap next cells fpn with
  | zero =>
    have hnext : next = none := hlast rfl
    subst hnext
    refine ⟨heap, cells ++ [(fst, fpn)], rfl, hfin, ⟨?_, by simpa using hnodup⟩,
      by simp [framesFrom]⟩
    exact chain_append.mpr ⟨some fst, hchain, rfl, none, hnode, rfl⟩
  | succ n ih =>
    have hfree := malloc.free heap hfin
    have hne : fst ≠ malloc.addr heap := by
      intro heq
      rw [← heq, hnode] at hfree
      cases hfree
    have hnew : malloc.addr heap ∉ cells.map Prod.fst := fun hmem => hchain.mem hmem hfree
    have hfst : fst ∉ cells.map Prod.fst := fun hmem =>
      (List.nodup_append'.mp hnodup).2.2 hmem (List.mem_singleton.mpr rfl)
    -- The round makes a node and links it behind `fst`, which joins the nodes before it.
    let new := malloc.addr heap
    let heap₁ := Function.update heap new (some ⟨BitVec.ofNat 64 iter, none⟩)
    let heap₂ := Function.update heap₁ fst (some ⟨fpn, some new⟩)
    have hfst₁ : heap₁ fst = some ⟨fpn, next⟩ := (Function.update_of_ne hne _ _).trans hnode
    have hchain₂ : Chain heap₂ p (cells ++ [(fst, fpn)]) (some new) :=
      chain_append.mpr ⟨some fst, (hchain.update_of_not_mem hnew _).update_of_not_mem hfst _,
        rfl, some new, Function.update_self .., rfl⟩
    have hnew₂ : heap₂ new = some ⟨BitVec.ofNat 64 iter, none⟩ :=
      (Function.update_of_ne hne.symm _ _).trans (Function.update_self ..)
    have hnodup₂ : ((cells ++ [(fst, fpn)]).map Prod.fst ++ [new]).Nodup := by
      rw [List.map_append, List.nodup_append']
      refine ⟨hnodup, List.nodup_singleton _, fun b hb hb' => ?_⟩
      rw [List.mem_singleton.mp hb', List.map_singleton, List.mem_append,
        List.mem_singleton] at hb
      exact hb.elim hnew hne.symm
    obtain ⟨heap', cells', hloop, hfin', hlinked, hcells⟩ :=
      ih (iter + 1) ((hfin.update _ _).update _ _) hchain₂ hnew₂ hnodup₂ fun _ => rfl
    have hround : formatLoop malloc (n + 1) iter fst heap =
        formatLoop malloc n (iter + 1) new heap₂ := by
      rw [formatLoop]
      show (match heap₁ fst with | none => _ | some node => _) = _
      rw [hfst₁]
    refine ⟨heap', cells', hround.trans hloop, hfin', hlinked, ?_⟩
    rw [hcells, framesFrom_succ, List.map_append, List.append_assoc]
    rfl

/-- With two frames or more, `MEMPHY_format` makes the list of all of them. -/
theorem memphyFormat_holds {malloc : Malloc Addr} {raw : Option ℕ} {maxsz pagesz : BitVec 32}
    {s : State} (hfin : s.heap.Bounded) (hN : 2 ≤ numfp maxsz pagesz) :
    ∃ s', memphyFormat malloc raw maxsz pagesz s = .ok (0, s') ∧
      Holds s' ⟨framesFrom 0 (numfp maxsz pagesz).toNat⟩ := by
  obtain ⟨n, hn⟩ : ∃ n, (numfp maxsz pagesz).toNat = n + 1 :=
    Nat.exists_eq_add_one_of_ne_zero (by omega)
  have hround : n = 0 → raw = none := by omega
  let fst := malloc.addr s.heap
  let heap := Function.update s.heap fst (some ⟨0, raw⟩)
  have hchain : Chain heap (some fst) [] (some fst) := rfl
  have hnode : heap fst = some ⟨0, raw⟩ := Function.update_self ..
  obtain ⟨heap', cells, hloop, hfin', hlinked, hcells⟩ :=
    formatLoop_spec malloc 1 (hfin.update fst _) hchain hnode (List.nodup_singleton fst) hround
  refine ⟨⟨heap', some (malloc.addr s.heap)⟩, ?_, hfin', cells, hlinked, ?_⟩
  · unfold memphyFormat
    rw [if_neg (by omega), hn, Nat.add_sub_cancel]
    dsimp only
    rw [hloop]
    rfl
  · rw [hcells, hn, framesFrom_succ]
    rfl

/-! ## Histories -/

/-- The memory of a device and the frames that are handed out. -/
structure Ledger where
  mem : State
  out : List Addr

/-- A call on the free frames. -/
inductive Call
  | getFreefp
  | putFreefp (fpn : Addr)
  deriving DecidableEq

/-- The calls on a device that was just formatted. Only frames that are handed
out are put back. -/
def history (malloc : Malloc Addr) (raw : Option ℕ) (maxsz pagesz : BitVec 32) :
    Lts Ledger Call where
  init l := l.out = [] ∧ ∃ s : State, s.heap.Bounded ∧
    memphyFormat malloc raw maxsz pagesz s = .ok (0, l.mem)
  step l call l' :=
    match call with
    | .getFreefp => ∃ ret mem, memphyGetFreefp l.mem = .ok (ret, mem) ∧
      l' = { mem := mem, out := ret.toList ++ l.out }
    | .putFreefp fpn => fpn ∈ l.out ∧
      l' = { mem := memphyPutFreefp malloc l.mem fpn, out := l.out.erase fpn }

/-- The free frames and the frames handed out are all frames, each once. -/
def Accounted (n : ℕ) (l : Ledger) : Prop :=
  ∃ mp, Holds l.mem mp ∧ (mp.freeFpList ++ l.out).Perm (framesFrom 0 n)

/-- What holds after any history: the free list is a list without a cycle and
without a duplicate, a frame is free or handed out but not both, and a frame is
refused exactly if all are handed out. -/
structure Conserved (n : ℕ) (l : Ledger) : Prop where
  list : ∃ cells, Linked l.mem.heap l.mem.freeFpList cells ∧ (cells.map Prod.snd).Nodup ∧
    (∀ fpn ∈ cells.map Prod.snd, fpn ∉ l.out) ∧
    ∀ fpn : Addr, fpn ∈ cells.map Prod.snd ∨ fpn ∈ l.out ↔ fpn.toNat < n
  get : ∃ ret mem, memphyGetFreefp l.mem = .ok (ret, mem) ∧
    (ret = none ↔ ∀ fpn : Addr, fpn.toNat < n → fpn ∈ l.out) ∧ (ret = none → mem = l.mem)

theorem mem_framesFrom {n : ℕ} (hn : n ≤ 2 ^ 64) (fpn : Addr) :
    fpn ∈ framesFrom 0 n ↔ fpn.toNat < n := by
  unfold framesFrom
  rw [List.mem_map]
  constructor
  · rintro ⟨i, hi, rfl⟩
    rw [List.mem_range] at hi
    rw [BitVec.toNat_ofNat, Nat.zero_add, Nat.mod_eq_of_lt (by omega)]
    exact hi
  · intro hlt
    refine ⟨fpn.toNat, List.mem_range.mpr hlt, ?_⟩
    rw [Nat.zero_add, BitVec.ofNat_toNat, BitVec.setWidth_eq]

theorem nodup_framesFrom {n : ℕ} (hn : n ≤ 2 ^ 64) : (framesFrom 0 n).Nodup := by
  refine List.nodup_range.map_on fun i hi j hj heq => ?_
  rw [List.mem_range] at hi hj
  have hnat := congrArg BitVec.toNat heq
  rw [Nat.zero_add, Nat.zero_add, BitVec.toNat_ofNat, BitVec.toNat_ofNat,
    Nat.mod_eq_of_lt (by omega), Nat.mod_eq_of_lt (by omega)] at hnat
  exact hnat

/-- The quotient of two `int`s is no more than the largest magnitude of an `int`. -/
theorem numfp_le (maxsz pagesz : BitVec 32) : (numfp maxsz pagesz).toNat ≤ 2 ^ 64 := by
  have habs : (numfp maxsz pagesz).natAbs ≤ maxsz.toInt.natAbs := by
    unfold numfp
    rw [Int.natAbs_tdiv]
    exact Nat.div_le_self _ _
  have hlt := BitVec.toInt_lt (x := maxsz)
  have hle := BitVec.le_toInt maxsz
  omega

/-- A step keeps the account. -/
theorem Accounted.step {malloc : Malloc Addr} {raw : Option ℕ} {maxsz pagesz : BitVec 32} {n : ℕ}
    {l l' : Ledger} {call : Call} (h : Accounted n l)
    (hstep : (history malloc raw maxsz pagesz).step l call l') : Accounted n l' := by
  obtain ⟨mp, hholds, hperm⟩ := h
  cases call with
  | getFreefp =>
    obtain ⟨ret, mem, hget, rfl⟩ := hstep
    have href := memphyGetFreefp_refines hholds
    unfold Memphy.getFreefp at href
    cases hfree : mp.freeFpList with
    | nil =>
      rw [hfree] at href
      rw [href] at hget
      cases hget
      exact ⟨mp, hholds, hperm⟩
    | cons fpn fps =>
      rw [hfree] at href
      obtain ⟨s', hget', hholds'⟩ := href
      rw [hget'] at hget
      cases hget
      refine ⟨_, hholds', List.Perm.trans ?_ (hfree ▸ hperm)⟩
      exact List.perm_middle
  | putFreefp fpn =>
    obtain ⟨hmem, rfl⟩ := hstep
    refine ⟨_, hholds.put malloc fpn, List.Perm.trans ?_ hperm⟩
    exact List.perm_middle.symm.trans ((List.perm_cons_erase hmem).symm.append_left _)

/-- An account says all of `Conserved`. -/
theorem Accounted.conserved {n : ℕ} {l : Ledger} (h : Accounted n l) (hn : n ≤ 2 ^ 64) :
    Conserved n l := by
  obtain ⟨mp, hholds, hperm⟩ := h
  have hnodup := List.nodup_append'.mp (hperm.nodup_iff.mpr (nodup_framesFrom hn))
  have hmem (fpn : Addr) : fpn ∈ mp.freeFpList ∨ fpn ∈ l.out ↔ fpn.toNat < n := by
    rw [← List.mem_append, hperm.mem_iff, mem_framesFrom hn]
  constructor
  · obtain ⟨-, cells, hlinked, hcells⟩ := hholds
    rw [← hcells] at hnodup hmem
    exact ⟨cells, hlinked, hnodup.1, fun fpn hin hout => hnodup.2.2 hin hout, hmem⟩
  · have href := memphyGetFreefp_refines hholds
    unfold Memphy.getFreefp at href
    cases hfree : mp.freeFpList with
    | nil =>
      rw [hfree] at href hmem
      refine ⟨none, l.mem, href, ⟨fun _ fpn hlt => ?_, fun _ => rfl⟩, fun _ => rfl⟩
      exact ((hmem fpn).mpr hlt).resolve_left (List.not_mem_nil)
    | cons fpn fps =>
      rw [hfree] at href hmem hnodup
      obtain ⟨s', hget, -⟩ := href
      have hin : fpn ∈ fpn :: fps := List.mem_cons_self ..
      refine ⟨some fpn, s', hget, ⟨fun h => absurd h (Option.some_ne_none fpn), fun hall => ?_⟩,
        fun h => absurd h (Option.some_ne_none fpn)⟩
      exact absurd (hall fpn ((hmem fpn).mp (.inl hin))) (hnodup.2.2 hin)

theorem accounted_of_reachable {malloc : Malloc Addr} {raw : Option ℕ}
    {maxsz pagesz : BitVec 32} {l : Ledger} (hN : 2 ≤ numfp maxsz pagesz)
    (hl : (history malloc raw maxsz pagesz).Reachable l) :
    Accounted (numfp maxsz pagesz).toNat l := by
  refine hl.invariant ?_ fun _ _ _ h hstep => h.step hstep
  rintro l ⟨hout, s, hfin, hformat⟩
  obtain ⟨s', hformat', hholds⟩ := @memphyFormat_holds malloc raw _ _ s hfin hN
  rw [hformat'] at hformat
  cases hformat
  refine ⟨_, hholds, ?_⟩
  rw [hout, List.append_nil]

/-- From a device of at least two frames, whose list `MEMPHY_format` always
makes, no history of calls loses, doubles or shares a frame. -/
theorem reachable_conserved (malloc : Malloc Addr) (raw : Option ℕ) {maxsz pagesz : BitVec 32}
    (hN : 2 ≤ numfp maxsz pagesz) :
    (∀ s : State, s.heap.Bounded → ∃ s', memphyFormat malloc raw maxsz pagesz s = .ok (0, s')) ∧
    ∀ l, (history malloc raw maxsz pagesz).Reachable l →
      Conserved (numfp maxsz pagesz).toNat l := by
  constructor
  · intro s hfin
    obtain ⟨s', hformat, -⟩ := memphyFormat_holds hfin hN
    exact ⟨s', hformat⟩
  · intro l hl
    exact (accounted_of_reachable hN hl).conserved (numfp_le _ _)

/-- A device of two frames: both are handed out, and frame 0 is put back. -/
theorem reachable_conserved_twoFrames :
    ∃ l, (history .least none 512 256).Reachable l ∧ l.out = [1] ∧ Conserved 2 l := by
  have hN : 2 ≤ numfp 512 256 := by decide
  have hfin : (⟨fun _ => none, none⟩ : State).heap.Bounded := ⟨0, fun _ _ => rfl⟩
  obtain ⟨s, hformat, hholds⟩ := @memphyFormat_holds .least none _ _ _ hfin hN
  have hformatted : (history .least none 512 256).Reachable ⟨s, []⟩ := .init ⟨rfl, _, hfin, hformat⟩
  obtain ⟨s₁, hget₁, hholds₁⟩ : ∃ s₁, memphyGetFreefp s = .ok (some 0, s₁) ∧ Holds s₁ ⟨[1]⟩ :=
    memphyGetFreefp_refines hholds
  obtain ⟨s₂, hget₂, -⟩ : ∃ s₂, memphyGetFreefp s₁ = .ok (some 1, s₂) ∧ Holds s₂ ⟨[]⟩ :=
    memphyGetFreefp_refines hholds₁
  have hfirst : (history .least none 512 256).Reachable ⟨s₁, [0]⟩ :=
    hformatted.step (a := .getFreefp) ⟨_, _, hget₁, rfl⟩
  have hsecond : (history .least none 512 256).Reachable ⟨s₂, [1, 0]⟩ :=
    hfirst.step (a := .getFreefp) ⟨_, _, hget₂, rfl⟩
  have hback : (history .least none 512 256).Reachable ⟨memphyPutFreefp .least s₂ 0, [1]⟩ :=
    hsecond.step (a := .putFreefp 0) ⟨List.mem_cons_of_mem 1 List.mem_cons_self, rfl⟩
  exact ⟨_, hback, rfl, (reachable_conserved .least none hN).2 _ hback⟩

end FrameList

end SimpleOs
