import SimpleOs.Libmem

/-!
# The regions of a process

The regions in the symbol table should not overlap each other or the free list,
and should lie between `vm_start` and `sbrk` of the vm area. A region that no
free region has room for starts at `sbrk`, and the call that is to move `sbrk`
behind it, `inc_vma_limit`, has an empty body. From the map that `init_mm`
describes, in which no free region has room for anything, the first allocation
of a positive size breaks the law.

Results:
1. `liballoc_pos`: the region of such an allocation starts at 0, outside the
   area.
2. `holdsAlong_iff`: the law holds along a run exactly if the run allocates
   nothing but empty regions.
-/

namespace SimpleOs

namespace Libmem

open MmStruct

/-- The regions recorded in the symbol table are disjoint, have no byte in a free
region, and lie between `vm_start` and `sbrk`. -/
structure RegionsApart (mm : MmStruct) : Prop where
  live : ∀ r r', r ≠ r' → Disjoint (mm.symrgtbl r).bytes (mm.symrgtbl r').bytes
  free : ∀ r, ∀ vma ∈ mm.mmap, ∀ rg ∈ vma.vmFreergList,
    Disjoint (mm.symrgtbl r).bytes rg.bytes
  inside : ∀ r, ∀ vma ∈ mm.mmap,
    (mm.symrgtbl r).bytes ⊆ Set.Ico vma.vmStart.toNat vma.sbrk.toNat

/-- A call of the allocator. -/
inductive Call
  | liballoc (size : Addr) (regIndex : BitVec 32)
  | libfree (regIndex : BitVec 32)
  deriving DecidableEq

/-- The register is in the table, the size below 2^31. -/
def Call.Valid : Call → Prop
  | .liballoc size regIndex => size.toNat < 2 ^ 31 ∧ regIndex.toNat < pagingMaxSymtblSz
  | .libfree regIndex => regIndex.toNat < pagingMaxSymtblSz

instance : DecidablePred Call.Valid
  | .liballoc size regIndex =>
    inferInstanceAs (Decidable (size.toNat < 2 ^ 31 ∧ regIndex.toNat < pagingMaxSymtblSz))
  | .libfree regIndex => inferInstanceAs (Decidable (regIndex.toNat < pagingMaxSymtblSz))

/-- The call. -/
def Call.run (krnl : Krnl) : Call → Except Fault (ℤ × Krnl)
  | .liballoc size regIndex => Libmem.liballoc krnl size regIndex
  | .libfree regIndex => Libmem.libfree krnl regIndex

/-- Every call returns, and the regions are apart after it. -/
def HoldsAlong : Krnl → List Call → Prop
  | _, [] => True
  | krnl, call :: calls =>
    ∃ val krnl', call.run krnl = .ok (val, krnl') ∧ RegionsApart krnl'.mm ∧ HoldsAlong krnl' calls

/-- The map has the one area of `init_mm` and no region. -/
structure Fresh (krnl : Krnl) : Prop where
  mmap : krnl.mm.mmap = [vma0]
  symrgtbl : ∀ r, krnl.mm.symrgtbl r = ⟨0, 0⟩

theorem Fresh.regionsApart {krnl : Krnl} (h : Fresh krnl) : RegionsApart krnl.mm := by
  have hbytes : ∀ r, (krnl.mm.symrgtbl r).bytes = ∅ := by
    intro r
    rw [h.symrgtbl, VmRg.bytes]
    exact Set.Ico_self _
  refine ⟨?_, ?_, ?_⟩
  · intro r r' _
    rw [hbytes r]
    exact Set.empty_disjoint _
  · intro r vma _ rg _
    rw [hbytes r]
    exact Set.empty_disjoint _
  · intro r vma _
    rw [hbytes r]
    exact Set.empty_subset _

/-! ## The calls on a fresh map -/

theorem getVmaByNum_fresh {krnl : Krnl} (h : Fresh krnl) :
    getVmaByNum krnl.mm 0 = .ok (some ⟨[], vma0, []⟩) :=
  getVmaByNum_front h.mmap (by decide)

theorem takeFreerg_vma0 {size : Addr} (h : size ≠ 0) :
    takeFreerg size vma0.vmFreergList = none := by
  have hroom : ¬ (0 : Addr) + size ≤ 0 := by
    rw [zero_add]
    exact fun hle => h (BitVec.le_zero_iff.mp hle)
  rw [vma0, takeFreerg, if_neg hroom]
  rfl

/-- No register holds a region, so none can be freed. -/
theorem libfree_fresh {krnl : Krnl} (h : Fresh krnl) {regIndex : BitVec 32}
    (hreg : regIndex.toNat < pagingMaxSymtblSz) : libfree krnl regIndex = .ok (-1, krnl) :=
  libfree_empty (r := ⟨regIndex.toNat, hreg⟩) rfl (h.symrgtbl _)

/-- An allocation of size 0 takes the empty region out of the free list and
leaves an empty one. -/
theorem liballoc_zero {krnl : Krnl} (h : Fresh krnl) {regIndex : BitVec 32}
    (hreg : regIndex.toNat < pagingMaxSymtblSz) :
    ∃ krnl', liballoc krnl 0 regIndex = .ok (0, krnl') ∧ Fresh krnl' := by
  obtain ⟨r, hr⟩ : ∃ r : Fin pagingMaxSymtblSz, regIndex.toNat = r := ⟨⟨_, hreg⟩, rfl⟩
  have harea : getFreeVmrgArea krnl.mm 0 ((0 : Addr).setWidth 32) =
      .ok (some ⟨0, 0⟩, { krnl.mm with mmap := [vma0] }) := by
    unfold getFreeVmrgArea
    rw [getVmaByNum_fresh h]
    rfl
  refine ⟨_, liballoc_served hr harea, rfl, fun r' => ?_⟩
  rcases eq_or_ne r' r with rfl | hne
  · exact Function.update_self ..
  · exact (Function.update_of_ne hne _ _).trans (h.symrgtbl r')

/-- A larger one finds no room. Its region starts at `sbrk`, which is 0 and stays
so. -/
theorem liballoc_pos {krnl : Krnl} (h : Fresh krnl) {size : Addr} (hsize : size.toNat < 2 ^ 31)
    (hpos : size ≠ 0) {regIndex : BitVec 32} {r : Fin pagingMaxSymtblSz}
    (hreg : regIndex.toNat = r) :
    ∃ krnl', liballoc krnl size regIndex = .ok (0, krnl') ∧ krnl'.mm.mmap = [vma0] ∧
      krnl'.mm.symrgtbl = Function.update krnl.mm.symrgtbl r ⟨0, size⟩ := by
  have harea : getFreeVmrgArea krnl.mm 0 (size.setWidth 32) = .ok (none, krnl.mm) := by
    unfold getFreeVmrgArea
    rw [getVmaByNum_fresh h]
    simp only [ok_bind, signExtend_setWidth hsize, takeFreerg_vma0 hpos]
    rfl
  let mm : MmStruct := { krnl.mm with
    symrgtbl := Function.update krnl.mm.symrgtbl r ⟨0, size⟩ }
  refine ⟨{ krnl with mm := mm }, ?_, h.mmap, rfl⟩
  have hcall := liballoc_notFound (getVmaByNum_fresh h) hreg harea
  have hstart : (vma0.sbrk.setWidth 32).signExtend 64 = 0 := rfl
  rwa [hstart, zero_add] at hcall

theorem not_regionsApart_of_pos {mm : MmStruct} (hmmap : mm.mmap = [vma0])
    {r : Fin pagingMaxSymtblSz} {size : Addr} (hr : mm.symrgtbl r = ⟨0, size⟩) (hpos : size ≠ 0) :
    ¬ RegionsApart mm := by
  intro h
  have hinside := h.inside r vma0 (hmmap ▸ List.mem_singleton.mpr rfl)
  have hbyte : 0 ∈ (mm.symrgtbl r).bytes := by
    rw [hr]
    refine Set.mem_Ico.mpr ⟨le_rfl, Nat.pos_of_ne_zero fun hzero => hpos ?_⟩
    exact BitVec.eq_of_toNat_eq hzero
  exact absurd (hinside hbyte).2 (Nat.not_lt_zero 0)

/-! ## Runs -/

/-- From a fresh map, the regions are apart after every call of a sequence
exactly if the sequence allocates nothing but empty regions. -/
theorem holdsAlong_iff {calls : List Call} (hv : ∀ call ∈ calls, call.Valid) {krnl : Krnl}
    (h : Fresh krnl) :
    HoldsAlong krnl calls ↔ ∀ size regIndex, Call.liballoc size regIndex ∈ calls → size = 0 := by
  induction calls generalizing krnl with
  | nil => simp [HoldsAlong]
  | cons call calls ih =>
    have hcall := hv call (List.mem_cons_self ..)
    have hcalls := fun call' hmem => hv call' (List.mem_cons_of_mem call hmem)
    -- A call that leaves the map fresh hands the rest of the run over.
    have hstep : ∀ val krnl', call.run krnl = .ok (val, krnl') → Fresh krnl' →
        (∀ size regIndex, call = .liballoc size regIndex → size = 0) →
        (HoldsAlong krnl (call :: calls) ↔
          ∀ size regIndex, Call.liballoc size regIndex ∈ call :: calls → size = 0) := by
      intro val krnl' hrun hfresh hzero
      unfold HoldsAlong
      rw [hrun]
      constructor
      · rintro ⟨val', krnl'', heq, -, hrest⟩ size regIndex hmem
        cases heq
        rcases List.mem_cons.mp hmem with heq | hmem
        · exact hzero size regIndex heq.symm
        · exact (ih hcalls hfresh).mp hrest size regIndex hmem
      · intro hall
        refine ⟨val, krnl', rfl, hfresh.regionsApart, (ih hcalls hfresh).mpr ?_⟩
        exact fun size regIndex hmem => hall size regIndex (List.mem_cons_of_mem call hmem)
    cases call with
    | libfree regIndex =>
      exact hstep _ _ (libfree_fresh h hcall) h fun _ _ heq => by cases heq
    | liballoc size regIndex =>
      rcases eq_or_ne size 0 with rfl | hzero
      · obtain ⟨krnl', hrun, hfresh⟩ := liballoc_zero h hcall.2
        exact hstep _ _ hrun hfresh fun _ _ heq => by cases heq; rfl
      · obtain ⟨krnl', hrun, hmmap, hsym⟩ :=
          liballoc_pos h hcall.1 hzero (r := ⟨regIndex.toNat, hcall.2⟩) rfl
        constructor
        · rintro ⟨val, krnl'', heq, hapart, -⟩
          rw [Call.run, hrun] at heq
          cases heq
          exact absurd hapart
            (not_regionsApart_of_pos hmmap (by rw [hsym]; exact Function.update_self ..) hzero)
        · exact fun hall => absurd (hall size regIndex (List.mem_cons_self ..)) hzero

theorem fresh_bareKrnl : Fresh bareKrnl :=
  ⟨rfl, fun _ => rfl⟩

/-- A run that allocates nothing but an empty region. -/
theorem holdsAlong_emptyRegion : HoldsAlong bareKrnl [.libfree 2, .liballoc 0 5] := by
  refine (holdsAlong_iff (by decide) fresh_bareKrnl).mpr fun size regIndex hmem => ?_
  rcases List.mem_cons.mp hmem with heq | hmem
  · cases heq
  · cases List.mem_singleton.mp hmem
    rfl

/-- Registers 0 and 1 are given the first 100 and the first 60 bytes of an area
that has none. -/
theorem liballoc_overlap :
    (∃ krnl krnl', liballoc bareKrnl 100 0 = .ok (0, krnl) ∧ liballoc krnl 60 1 = .ok (0, krnl') ∧
      krnl'.mm.symrgtbl 0 = ⟨0, 100⟩ ∧ krnl'.mm.symrgtbl 1 = ⟨0, 60⟩) ∧
    ¬ HoldsAlong bareKrnl [.liballoc 100 0, .liballoc 60 1] := by
  refine ⟨⟨_, _, rfl, rfl, rfl, rfl⟩, ?_⟩
  have hsize : (100 : Addr).toNat < 2 ^ 31 := by decide
  have hreg : (0 : BitVec 32).toNat = (0 : Fin pagingMaxSymtblSz) := rfl
  obtain ⟨krnl, hrun, hmmap, hsym⟩ := liballoc_pos fresh_bareKrnl hsize (by decide) hreg
  rintro ⟨val, krnl', heq, hapart, -⟩
  rw [Call.run, hrun] at heq
  cases heq
  exact not_regionsApart_of_pos hmmap (by rw [hsym]; exact Function.update_self ..) (by decide)
    hapart

end Libmem

end SimpleOs
