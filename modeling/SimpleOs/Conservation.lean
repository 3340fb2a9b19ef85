import SimpleOs.FreeRegions
import SimpleOs.LiveRegions
import SimpleOs.Lib.Lts

/-!
# The bytes of the regions

Allocation moves bytes from a free list to a register and release moves them
back. `liballoc` writes the new region over what the register holds, though, and
a region that is overwritten is in no list any more; and `get_free_vmrg_area`
compares `rg_start + size` with the end of the region after it may have wrapped.

Results:
1. `mult_libfree`: a release covers every byte as often as before.
2. `regionBytes_liballoc_iff`: an allocation from the free list keeps the bytes
   exactly if the register held none.
3. `run_keeps_bytes`: what a run keeps that meets this condition at every step.
-/

namespace SimpleOs

namespace Libmem

open Cover MmStruct

/-- The regions of the symbol table and the free regions of all areas. -/
def regions (mm : MmStruct) : List VmRg :=
  (List.finRange pagingMaxSymtblSz).map mm.symrgtbl ++ mm.mmap.flatMap VmArea.vmFreergList

/-- Their bytes. -/
def regionBytes (mm : MmStruct) : Set ℕ :=
  covered (regions mm)

/-- No two of them share a byte. -/
def RegionsDisjoint (mm : MmStruct) : Prop :=
  ((regions mm).map VmRg.bytes).Pairwise Disjoint

/-- How many of them cover the byte `b`. -/
noncomputable def coverage (mm : MmStruct) (b : ℕ) : ℕ :=
  mult ((regions mm).map VmRg.bytes) b

theorem regionBytes_eq {mm mm' : MmStruct} (h : ∀ b, coverage mm b = coverage mm' b) :
    regionBytes mm = regionBytes mm' :=
  union_eq h

theorem RegionsDisjoint.of_coverage {mm mm' : MmStruct} (hdisj : RegionsDisjoint mm)
    (h : ∀ b, coverage mm b = coverage mm' b) : RegionsDisjoint mm' :=
  pairwise_disjoint_of_mult h hdisj

/-- The regions of the symbol table, up to order, with the register `r` in front. -/
theorem symrgtbl_perm (mm : MmStruct) (r : Fin pagingMaxSymtblSz) (rg : VmRg) :
    ∃ others : List VmRg,
      (∀ b, coverage mm b = mult [(mm.symrgtbl r).bytes] b + mult (others.map VmRg.bytes) b +
        mult ((mm.mmap.flatMap VmArea.vmFreergList).map VmRg.bytes) b) ∧
      ∀ mmap b, coverage { mm with symrgtbl := Function.update mm.symrgtbl r rg, mmap := mmap } b =
        mult [rg.bytes] b + mult (others.map VmRg.bytes) b +
          mult ((mmap.flatMap VmArea.vmFreergList).map VmRg.bytes) b := by
  obtain ⟨others, hold, hnew⟩ :=
    map_update_perm (List.nodup_finRange _) (List.mem_finRange r) mm.symrgtbl rg
  refine ⟨others, fun b => ?_, fun mmap b => ?_⟩
  · unfold coverage regions
    rw [List.map_append, mult_append, mult_perm (hold.map VmRg.bytes), List.map_cons, mult_cons]
  · unfold coverage regions
    rw [List.map_append, mult_append, mult_perm (hnew.map VmRg.bytes), List.map_cons, mult_cons]

/-- Regions without a byte do not matter. -/
theorem regionsDisjoint_iff {mm : MmStruct} :
    RegionsDisjoint mm ↔ ((nonempty (regions mm)).map VmRg.bytes).Pairwise Disjoint := by
  unfold RegionsDisjoint
  rw [pairwise_disjoint_iff, pairwise_disjoint_iff]
  exact forall_congr' fun b => by rw [mult_nonempty]

theorem bytes_eq_empty {rg : VmRg} (h : rg.rgStart ≥ rg.rgEnd) : rg.bytes = ∅ :=
  Set.Ico_eq_empty (not_lt.mpr (BitVec.le_def.mp h))

/-! ## Release -/

/-- Enlisting a region adds its bytes to the lists; without a byte it is refused. -/
theorem mult_enlist {mm mm' : MmStruct} {rg : VmRg} {val : ℤ}
    (h : enlistVmFreergList mm rg = .ok (val, mm')) :
    mm' = { mm with mmap := mm'.mmap } ∧
    ∀ b, mult ((mm'.mmap.flatMap VmArea.vmFreergList).map VmRg.bytes) b =
      mult [rg.bytes] b + mult ((mm.mmap.flatMap VmArea.vmFreergList).map VmRg.bytes) b := by
  unfold enlistVmFreergList at h
  cases hmmap : mm.mmap with
  | nil =>
    rw [hmmap] at h
    cases h
  | cons vma after =>
    rw [hmmap] at h
    dsimp only at h
    split at h
    · next hempty =>
      cases h
      refine ⟨rfl, fun b => ?_⟩
      rw [bytes_eq_empty hempty, mult_singleton_empty, Nat.zero_add, hmmap]
    · cases h
      refine ⟨rfl, fun b => ?_⟩
      rw [List.flatMap_cons, List.flatMap_cons, List.cons_append, List.map_cons, mult_cons]

/-- A release covers every byte as often as before, whatever the register holds. -/
theorem coverage_libfree {krnl krnl' : Krnl} {regIndex : BitVec 32} {val : ℤ}
    (h : libfree krnl regIndex = .ok (val, krnl')) (b : ℕ) :
    coverage krnl.mm b = coverage krnl'.mm b := by
  rcases libfree_eq_ok h with rfl | ⟨r, -, val', mm, henlist, rfl⟩
  · rfl
  · obtain ⟨hmm, hmult⟩ := mult_enlist henlist
    obtain ⟨others, hold, hnew⟩ := symrgtbl_perm krnl.mm r ⟨0, 0⟩
    have hzero : (VmRg.bytes ⟨0, 0⟩) = ∅ := bytes_eq_empty (by decide)
    show coverage krnl.mm b = coverage mm b
    rw [hmm, hold, hnew, hmult, hzero, mult_singleton_empty, Nat.zero_add,
      Nat.add_comm (mult _ b), Nat.add_assoc]

/-! ## Allocation -/

/-- The free region that serves a request of `size` bytes. -/
def servingRg (mm : MmStruct) (size : Addr) : Option VmRg :=
  match getVmaByNum mm 0 with
  | .ok (some cur) =>
    cur.vma.vmFreergList.find? fun rg => HasRoom ((size.setWidth 32).signExtend 64) rg
  | _ => none

/-- The request is served from the free list. -/
def FoundFree (mm : MmStruct) (size : Addr) : Prop :=
  ∃ newrg mm', getFreeVmrgArea mm 0 (size.setWidth 32) = .ok (some newrg, mm')

theorem getFreeVmrgArea_inv {mm mm' : MmStruct} {vmaid : ℤ} {size : BitVec 32} {newrg : VmRg}
    (h : getFreeVmrgArea mm vmaid size = .ok (some newrg, mm')) :
    ∃ cur freergs, getVmaByNum mm vmaid = .ok (some cur) ∧
      takeFreerg (size.signExtend 64) cur.vma.vmFreergList = some (newrg, freergs) ∧
      mm' = { mm with mmap := cur.put { cur.vma with vmFreergList := freergs } } := by
  unfold getFreeVmrgArea at h
  obtain ⟨result, hcur, h⟩ := bind_eq_ok.mp h
  cases result with
  | none => cases h
  | some cur =>
    dsimp only at h
    cases htake : takeFreerg (size.signExtend 64) cur.vma.vmFreergList with
    | none =>
      rw [htake] at h
      cases h
    | some taken =>
      rw [htake] at h
      dsimp only at h
      split at h
      · cases h
      · cases h
        exact ⟨cur, _, hcur, htake, rfl⟩

theorem put_vma_of_seekVma {vmaid : ℤ} {before areas : List VmArea} {cur : VmaCursor}
    (h : seekVma vmaid before areas = .ok cur) : cur.put cur.vma = before ++ areas := by
  induction areas generalizing before with
  | nil => cases h
  | cons vma areas ih =>
    rw [seekVma] at h
    split at h
    · rw [ih h, List.append_assoc]
      rfl
    · cases h
      rfl

/-- The area that is found is in the list. -/
theorem put_vma {mm : MmStruct} {vmaid : ℤ} {cur : VmaCursor}
    (h : getVmaByNum mm vmaid = .ok (some cur)) : cur.put cur.vma = mm.mmap := by
  unfold getVmaByNum at h
  split at h
  · cases h
  · next vma after hmmap =>
    obtain ⟨cur', hseek, hcur⟩ := map_eq_ok.mp h
    cases hcur
    rw [put_vma_of_seekVma hseek, hmmap]
    rfl

theorem servingRg_of_takeFreerg {mm : MmStruct} {size : Addr} {cur : VmaCursor} {newrg : VmRg}
    {freergs : List VmRg} (hcur : getVmaByNum mm 0 = .ok (some cur))
    (htake : takeFreerg ((size.setWidth 32).signExtend 64) cur.vma.vmFreergList =
      some (newrg, freergs)) :
    ∃ rg, servingRg mm size = some rg ∧ rg.rgStart = newrg.rgStart := by
  obtain ⟨front, rg, back, hlist, hfront, hroom, rfl, -⟩ := takeFreerg_eq_some htake
  refine ⟨rg, ?_, rfl⟩
  unfold servingRg
  rw [hcur]
  dsimp only
  rw [hlist, List.find?_eq_some_iff_append]
  exact ⟨by simpa using hroom, front, back, rfl, by simpa using hfront⟩

/-- An allocation from the free list drops what the register held, and nothing
else, if the region that serves it does not wrap. -/
theorem coverage_liballoc {krnl krnl' : Krnl} {size : Addr} {regIndex : BitVec 32}
    {val : ℤ} {r : Fin pagingMaxSymtblSz} (hsize : size.toNat < 2 ^ 31)
    (hreg : regIndex.toNat = r) (hserved : FoundFree krnl.mm size)
    (hwrap : ∀ rg, servingRg krnl.mm size = some rg → rg.rgStart.toNat + size.toNat < 2 ^ 64)
    (h : liballoc krnl size regIndex = .ok (val, krnl')) (b : ℕ) :
    coverage krnl.mm b = coverage krnl'.mm b + mult [(krnl.mm.symrgtbl r).bytes] b := by
  obtain ⟨newrg, mm', hfree⟩ := hserved
  rw [liballoc_served hreg hfree] at h
  cases h
  obtain ⟨cur, freergs, hcur, htake, rfl⟩ := getFreeVmrgArea_inv hfree
  obtain ⟨rg, hrg, hstart⟩ := servingRg_of_takeFreerg hcur htake
  rw [signExtend_setWidth hsize] at htake
  have htaken := mult_takeFreerg htake (hstart ▸ hwrap rg hrg) b
  obtain ⟨others, hold, hnew⟩ := symrgtbl_perm krnl.mm r newrg
  rw [hold]
  dsimp only
  rw [hnew, ← put_vma hcur]
  simp only [VmaCursor.put, List.flatMap_append, List.flatMap_cons, List.map_append, mult_append]
  omega

/-- In a map whose regions are disjoint, such an allocation keeps the bytes
exactly if the register holds none. -/
theorem regionBytes_liballoc_iff {krnl krnl' : Krnl} {size : Addr} {regIndex : BitVec 32}
    {val : ℤ} {r : Fin pagingMaxSymtblSz} (hdisj : RegionsDisjoint krnl.mm)
    (hsize : size.toNat < 2 ^ 31) (hreg : regIndex.toNat = r) (hserved : FoundFree krnl.mm size)
    (hwrap : ∀ rg, servingRg krnl.mm size = some rg → rg.rgStart.toNat + size.toNat < 2 ^ 64)
    (h : liballoc krnl size regIndex = .ok (val, krnl')) :
    regionBytes krnl'.mm = regionBytes krnl.mm ↔ (krnl.mm.symrgtbl r).bytes = ∅ := by
  have hcov := coverage_liballoc hsize hreg hserved hwrap h
  constructor
  · intro hsame
    by_contra hne
    obtain ⟨b, hb⟩ := Set.nonempty_iff_ne_empty.mpr hne
    have hone := pairwise_disjoint_iff.mp hdisj b
    have hdrop := hcov b
    rw [mult_singleton_of_mem hb] at hdrop
    have hin : b ∈ regionBytes krnl'.mm := by
      rw [hsame]
      exact mem_union_iff.mpr (by unfold coverage at hdrop; omega)
    have hpos : 0 < coverage krnl'.mm b := mem_union_iff.mp hin
    unfold coverage at hdrop hpos
    omega
  · intro hempty
    refine regionBytes_eq fun b => ?_
    rw [hcov, hempty, mult_singleton_empty, Nat.add_zero]

/-! ## Runs -/

/-- The call is a release, or an allocation of a positive size from the free list. -/
def Call.FromFreeList (mm : MmStruct) : Call → Prop
  | .liballoc size _ => 0 < size.toNat ∧ FoundFree mm size
  | .libfree _ => True

/-- An allocation goes to a register without a byte, and the region that serves
it does not wrap. -/
def Call.Balanced (mm : MmStruct) : Call → Prop
  | .liballoc size regIndex =>
    (∀ r : Fin pagingMaxSymtblSz, regIndex.toNat = r →
      (mm.symrgtbl r).rgStart ≥ (mm.symrgtbl r).rgEnd) ∧
    ∀ rg, servingRg mm size = some rg → rg.rgStart.toNat + size.toNat < 2 ^ 64
  | .libfree _ => True

/-- The calls, from any map with disjoint regions. -/
def allocator : Lts Krnl Call where
  init krnl := RegionsDisjoint krnl.mm
  step krnl call krnl' := call.Valid ∧ call.FromFreeList krnl.mm ∧
    ∃ val, call.run krnl = .ok (val, krnl')

/-- A balanced call covers every byte as often as before. -/
theorem coverage_step {krnl krnl' : Krnl} {call : Call} (h : allocator.step krnl call krnl')
    (hbal : call.Balanced krnl.mm) (b : ℕ) : coverage krnl.mm b = coverage krnl'.mm b := by
  obtain ⟨hvalid, hfrom, val, hrun⟩ := h
  cases call with
  | liballoc size regIndex =>
    have hdrop := coverage_liballoc (r := ⟨regIndex.toNat, hvalid.2⟩) hvalid.1 rfl hfrom.2
      hbal.2 hrun b
    rw [hdrop, bytes_eq_empty (hbal.1 ⟨regIndex.toNat, hvalid.2⟩ rfl), mult_singleton_empty,
      Nat.add_zero]
  | libfree regIndex => exact coverage_libfree hrun b

/-- In a run whose allocations all go to registers without a byte and are served
by regions that do not wrap, the regions stay disjoint and their bytes stay the
same. -/
theorem run_keeps_bytes {krnl krnl' : Krnl} {calls : List Call}
    (hdisj : RegionsDisjoint krnl.mm)
    (hrun : (allocator.restrict fun krnl call _ => call.Balanced krnl.mm).Run krnl calls krnl') :
    RegionsDisjoint krnl'.mm ∧ regionBytes krnl'.mm = regionBytes krnl.mm := by
  refine hrun.invariant (I := fun krnl₁ => RegionsDisjoint krnl₁.mm ∧
    regionBytes krnl₁.mm = regionBytes krnl.mm) ⟨hdisj, rfl⟩ ?_
  rintro krnl₁ call krnl₂ ⟨hdisj₁, hbytes⟩ hstep
  have hcov := coverage_step hstep.1 hstep.2
  exact ⟨hdisj₁.of_coverage hcov, (regionBytes_eq hcov).symm.trans hbytes⟩

/-- A kernel whose first 8 bytes were allocated and freed again. -/
def freedKrnl : Krnl where
  mm := { bareKrnl.mm with mmap := [{ vma0 with vmFreergList := [⟨0, 8⟩, ⟨0, 0⟩] }] }
  activeMswp := ⟨[]⟩

theorem freedKrnl_disjoint : RegionsDisjoint freedKrnl.mm := by
  have hregions : nonempty (regions freedKrnl.mm) = [⟨0, 8⟩] := by decide
  rw [regionsDisjoint_iff, hregions]
  exact List.pairwise_singleton ..

/-- 4 of these bytes are allocated to a register that holds none, and the 8 bytes are
still there. -/
theorem run_freedKrnl_keeps_bytes :
    ∃ krnl', (allocator.restrict fun krnl call _ => call.Balanced krnl.mm).Run freedKrnl
        [.liballoc 4 1] krnl' ∧
      krnl'.mm.symrgtbl 1 = ⟨0, 4⟩ ∧ RegionsDisjoint krnl'.mm ∧
      regionBytes krnl'.mm = regionBytes freedKrnl.mm := by
  have hserving : servingRg freedKrnl.mm 4 = some ⟨0, 8⟩ := rfl
  have hbalanced : (Call.liballoc 4 1).Balanced freedKrnl.mm := by
    refine ⟨fun r _ => by revert r; decide, fun rg hrg => ?_⟩
    rw [hserving] at hrg
    cases hrg
    decide
  obtain ⟨krnl', hcall, hreg⟩ : ∃ krnl', liballoc freedKrnl 4 1 = .ok (0, krnl') ∧
      krnl'.mm.symrgtbl 1 = ⟨0, 4⟩ := ⟨_, rfl, rfl⟩
  have hserved : FoundFree freedKrnl.mm 4 := ⟨_, _, rfl⟩
  have hstep : allocator.step freedKrnl (.liballoc 4 1) krnl' :=
    ⟨by decide, ⟨by decide, hserved⟩, 0, hcall⟩
  have hrun : (allocator.restrict fun krnl call _ => call.Balanced krnl.mm).Run freedKrnl
      [.liballoc 4 1] krnl' := .snoc .nil ⟨hstep, hbalanced⟩
  exact ⟨krnl', hrun, hreg, run_keeps_bytes freedKrnl_disjoint hrun⟩

/-- After three calls: register 1 holds the first 4 of the 8 bytes. -/
def occupiedKrnl : Krnl where
  mm := { bareKrnl.mm with
    mmap := [{ vma0 with vmFreergList := [⟨4, 8⟩, ⟨0, 0⟩] }]
    symrgtbl := Function.update (Function.update
      (Function.update bareKrnl.mm.symrgtbl 0 ⟨0, 8⟩) 0 ⟨0, 0⟩) 1 ⟨0, 4⟩ }
  activeMswp := ⟨[]⟩

theorem occupiedKrnl_disjoint : RegionsDisjoint occupiedKrnl.mm := by
  have hregions : nonempty (regions occupiedKrnl.mm) = [⟨0, 4⟩, ⟨4, 8⟩] := by decide
  rw [regionsDisjoint_iff, hregions]
  simp [VmRg.bytes]

/-- The other 4 bytes are allocated to the same register, and the first 4 are in
no region any more. -/
theorem liballoc_loses_bytes :
    ∃ krnl₁ krnl₂ krnl₃, liballoc bareKrnl 8 0 = .ok (0, krnl₁) ∧
      libfree krnl₁ 0 = .ok (0, krnl₂) ∧ liballoc krnl₂ 4 1 = .ok (0, occupiedKrnl) ∧
      RegionsDisjoint occupiedKrnl.mm ∧ allocator.step occupiedKrnl (.liballoc 4 1) krnl₃ ∧
      regionBytes krnl₃.mm ≠ regionBytes occupiedKrnl.mm := by
  obtain ⟨krnl₃, hrun⟩ : ∃ krnl₃, liballoc occupiedKrnl 4 1 = .ok (0, krnl₃) := ⟨_, rfl⟩
  have hserved : FoundFree occupiedKrnl.mm 4 := ⟨_, _, rfl⟩
  have hserving : servingRg occupiedKrnl.mm 4 = some ⟨4, 8⟩ := rfl
  have hwrap : ∀ rg, servingRg occupiedKrnl.mm 4 = some rg →
      rg.rgStart.toNat + (4 : Addr).toNat < 2 ^ 64 := by
    intro rg hrg
    rw [hserving] at hrg
    cases hrg
    decide
  refine ⟨_, _, krnl₃, rfl, rfl, rfl, occupiedKrnl_disjoint,
    ⟨by decide, ⟨by decide, hserved⟩, 0, hrun⟩, fun hsame => ?_⟩
  have hreg : (1 : BitVec 32).toNat = (1 : Fin pagingMaxSymtblSz) := rfl
  have hempty := (regionBytes_liballoc_iff occupiedKrnl_disjoint (by decide) hreg hserved hwrap
    hrun).mp hsame
  have hbyte : 0 ∈ (occupiedKrnl.mm.symrgtbl 1).bytes := Set.mem_Ico.mpr (by decide)
  rw [hempty] at hbyte
  exact hbyte

end Libmem

end SimpleOs
