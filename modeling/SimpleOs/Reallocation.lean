import SimpleOs.Conservation

/-!
# Releasing and allocating again

`libfree` puts a region in front of the free list of the first area, and
`liballoc` takes the first region with room, from the front. So the region
released last serves a request of its own size, which takes it whole and leaves
the rest of the list as it was. Only behind the last region nothing moves up: its
node stays, with no byte in it.

Results:
1. `release_realloc`: a register is released and given its size again.
2. `run_release_realloc`: any number of registers are released and given their
   sizes again, the last one first.
-/

namespace SimpleOs

/-- How many bytes the region has. -/
def VmRg.size (rg : VmRg) : Addr :=
  rg.rgEnd - rg.rgStart

namespace Libmem

open MmStruct

/-- The region has a byte, and no more than an `int` can count. -/
def Releasable (rg : VmRg) : Prop :=
  rg.rgStart < rg.rgEnd ∧ rg.size.toNat < 2 ^ 31

/-- The entry `r` of the symbol table as an argument of the library. -/
def regIndex (r : Fin pagingMaxSymtblSz) : BitVec 32 :=
  BitVec.ofNat 32 r

/-- The call that releases `r`. -/
def release (r : Fin pagingMaxSymtblSz) : Call :=
  .libfree (regIndex r)

/-- The call that allocates to `r` the size that it has in `mm`. -/
def realloc (mm : MmStruct) (r : Fin pagingMaxSymtblSz) : Call :=
  .liballoc ((mm.symrgtbl r).size) (regIndex r)

/-- The calls that return 0. -/
def succeeding : Lts Krnl Call where
  init _ := True
  step krnl call krnl' := call.run krnl = .ok (0, krnl')

theorem toNat_regIndex (r : Fin pagingMaxSymtblSz) : (regIndex r).toNat = r := by
  unfold regIndex
  rw [BitVec.toNat_ofNat]
  exact Nat.mod_eq_of_lt (r.isLt.trans (by decide))

theorem rgStart_add_size (rg : VmRg) : rg.rgStart + rg.size = rg.rgEnd :=
  add_sub_cancel ..

/-- A region that is taken whole leaves the regions behind it. -/
theorem leftover_size {rg : VmRg} {back : List VmRg} (h : back ≠ []) :
    leftover rg.size rg back = back := by
  unfold leftover
  rw [rgStart_add_size, if_neg (BitVec.lt_irrefl _)]
  cases back with
  | nil => exact absurd rfl h
  | cons nextrg rest => rfl

/-- The regions with a byte among them, also if there are none behind it. -/
theorem nonempty_leftover_size (rg : VmRg) (back : List VmRg) :
    nonempty (leftover rg.size rg back) = nonempty back := by
  rw [nonempty_leftover, rgStart_add_size]
  simp [nonempty]

section FirstArea

variable {krnl : Krnl} {vma : VmArea} {after : List VmArea} {r : Fin pagingMaxSymtblSz}

/-- The kernel with another free list of the first area. -/
def withFreergs (krnl : Krnl) (vma : VmArea) (after : List VmArea) (freergs : List VmRg) : Krnl :=
  { krnl with mm := { krnl.mm with mmap := { vma with vmFreergList := freergs } :: after } }

/-- And with another region in `r`. -/
def withRegion (krnl : Krnl) (vma : VmArea) (after : List VmArea) (r : Fin pagingMaxSymtblSz)
    (rg : VmRg) (freergs : List VmRg) : Krnl :=
  { krnl with mm := { krnl.mm with
    mmap := { vma with vmFreergList := freergs } :: after
    symrgtbl := Function.update krnl.mm.symrgtbl r rg } }

/-- `r` is given back what it held. -/
theorem withRegion_restore (rg : VmRg) (freergs freergs' : List VmRg) :
    withRegion (withRegion krnl vma after r rg freergs) { vma with vmFreergList := freergs } after
      r (krnl.mm.symrgtbl r) freergs' = withFreergs krnl vma after freergs' := by
  unfold withRegion withFreergs
  simp only [Function.update_idem, Function.update_eq_self]

theorem withFreergs_self (hmmap : krnl.mm.mmap = vma :: after) :
    withFreergs krnl vma after vma.vmFreergList = krnl := by
  unfold withFreergs
  rw [← hmmap]

/-- A region with a byte goes to the front of the free list. -/
theorem libfree_front (hmmap : krnl.mm.mmap = vma :: after)
    (hrg : (krnl.mm.symrgtbl r).rgStart < (krnl.mm.symrgtbl r).rgEnd) :
    libfree krnl (regIndex r) = .ok (0, withRegion krnl vma after r ⟨0, 0⟩
      (krnl.mm.symrgtbl r :: vma.vmFreergList)) := by
  have hne : krnl.mm.symrgtbl r ≠ ⟨0, 0⟩ := by
    intro hempty
    rw [hempty] at hrg
    exact BitVec.lt_irrefl _ hrg
  rw [libfree_region (toNat_regIndex r) hne]
  unfold enlistVmFreergList
  simp only [hmmap]
  rw [if_neg (BitVec.not_le.mpr hrg)]
  rfl

/-- A request of the size of the first free region takes it whole. -/
theorem liballoc_front (hmmap : krnl.mm.mmap = vma :: after) (hid : 0 ≤ vma.vmait) {rg : VmRg}
    {back : List VmRg} (hlist : vma.vmFreergList = rg :: back) (hrg : Releasable rg)
    (r : Fin pagingMaxSymtblSz) :
    liballoc krnl rg.size (regIndex r) =
      .ok (0, withRegion krnl vma after r rg (leftover rg.size rg back)) := by
  have hroom : HasRoom rg.size rg := BitVec.le_of_eq (rgStart_add_size rg)
  have htake := takeFreerg_append back (fun rg' (h : rg' ∈ []) => by cases h) hroom
  rw [rgStart_add_size, List.nil_append, List.nil_append, ← hlist,
    ← signExtend_setWidth hrg.2] at htake
  have hstart : rg.rgStart ≠ -1 := by
    intro htop
    have hlt := hrg.1
    rw [htop] at hlt
    exact BitVec.not_allOnes_lt hlt
  have harea := getFreeVmrgArea_eq_some (getVmaByNum_front hmmap hid) htake hstart
  rw [signExtend_setWidth hrg.2] at harea
  exact liballoc_served (toNat_regIndex r) harea

/-- A register is released and given its size again. The calls change nothing but
the free list of the first area, and that only if it had no node. -/
theorem release_realloc (hmmap : krnl.mm.mmap = vma :: after) (hid : 0 ≤ vma.vmait)
    (hrg : Releasable (krnl.mm.symrgtbl r)) :
    ∃ krnl', krnl' = withRegion krnl vma after r ⟨0, 0⟩ (krnl.mm.symrgtbl r :: vma.vmFreergList) ∧
      (release r).run krnl = .ok (0, krnl') ∧
      (realloc krnl.mm r).run krnl' = .ok (0, withFreergs krnl vma after
        (leftover (krnl.mm.symrgtbl r).size (krnl.mm.symrgtbl r) vma.vmFreergList)) := by
  let krnl' := withRegion krnl vma after r ⟨0, 0⟩ (krnl.mm.symrgtbl r :: vma.vmFreergList)
  have hmmap' : krnl'.mm.mmap =
      { vma with vmFreergList := krnl.mm.symrgtbl r :: vma.vmFreergList } :: after := rfl
  have hback := liballoc_front hmmap' hid rfl hrg r
  rw [withRegion_restore] at hback
  exact ⟨krnl', rfl, libfree_front hmmap hrg.1, hback⟩

end FirstArea

/-! ## Any number of registers -/

/-- The first area can be allocated from and has a free region, and the registers
`regs` hold what they hold in `mm`. -/
structure Holding (mm : MmStruct) (regs : List (Fin pagingMaxSymtblSz)) (krnl : Krnl) : Prop where
  area : ∃ vma after, krnl.mm.mmap = vma :: after ∧ 0 ≤ vma.vmait ∧ vma.vmFreergList ≠ []
  nodup : regs.Nodup
  held : ∀ r ∈ regs, krnl.mm.symrgtbl r = mm.symrgtbl r ∧ Releasable (mm.symrgtbl r)

/-- A release keeps what the other registers hold. -/
theorem holding_withRegion {mm : MmStruct} {krnl : Krnl} {vma : VmArea} {r : Fin pagingMaxSymtblSz}
    {rest : List (Fin pagingMaxSymtblSz)} (hid : 0 ≤ vma.vmait) (hnodup : (r :: rest).Nodup)
    (hrest : ∀ r' ∈ rest, krnl.mm.symrgtbl r' = mm.symrgtbl r' ∧ Releasable (mm.symrgtbl r'))
    (after : List VmArea) (rg freerg : VmRg) (freergs : List VmRg) :
    Holding mm rest (withRegion krnl vma after r rg (freerg :: freergs)) := by
  obtain ⟨hnot, hnodup⟩ := List.nodup_cons.mp hnodup
  refine ⟨⟨_, after, rfl, hid, List.cons_ne_nil _ _⟩, hnodup, fun r' hmem => ?_⟩
  have hother : r' ≠ r := ne_of_mem_of_not_mem hmem hnot
  exact ⟨(Function.update_of_ne hother _ _).trans (hrest r' hmem).1, (hrest r' hmem).2⟩

/-- The first of the registers can be released and given its size again, which
restores the map; and in between the others hold what they held. -/
theorem Holding.step {mm : MmStruct} {r : Fin pagingMaxSymtblSz}
    {rest : List (Fin pagingMaxSymtblSz)} {krnl : Krnl} (h : Holding mm (r :: rest) krnl) :
    ∃ krnl', succeeding.step krnl (release r) krnl' ∧
      succeeding.step krnl' (realloc mm r) krnl ∧ Holding mm rest krnl' := by
  obtain ⟨vma, after, hmmap, hid, hne⟩ := h.area
  obtain ⟨⟨hsame, hrg⟩, hrest⟩ := List.forall_mem_cons.mp h.held
  obtain ⟨krnl', rfl, hfree, halloc⟩ := release_realloc hmmap hid (hsame ▸ hrg)
  rw [leftover_size hne, withFreergs_self hmmap] at halloc
  have hsize : realloc krnl.mm r = realloc mm r := by
    unfold realloc
    rw [hsame]
  exact ⟨_, hfree, hsize ▸ halloc, holding_withRegion hid h.nodup hrest ..⟩

/-- Distinct registers of a process are released and given their sizes again, the
last one first. Every call succeeds, the symbol table is what it was, and the free
list of the first area has the same regions with a byte, in the same order. The
regions may overlap each other or the free list. -/
theorem run_release_realloc {krnl : Krnl} {vma : VmArea} {after : List VmArea}
    (hmmap : krnl.mm.mmap = vma :: after) (hid : vma.vmId = 0)
    {regs : List (Fin pagingMaxSymtblSz)} (hnodup : regs.Nodup)
    (hregs : ∀ r ∈ regs, Releasable (krnl.mm.symrgtbl r)) :
    ∃ freergs, nonempty freergs = nonempty vma.vmFreergList ∧
      succeeding.Run krnl (regs.map release ++ regs.reverse.map (realloc krnl.mm))
        (withFreergs krnl vma after freergs) := by
  have hvmait : 0 ≤ vma.vmait := by
    unfold VmArea.vmait
    rw [hid]
    decide
  cases regs with
  | nil =>
    refine ⟨vma.vmFreergList, rfl, ?_⟩
    rw [withFreergs_self hmmap]
    exact .nil
  | cons r rest =>
    -- With `r` on the free list, the other registers leave it as it is.
    obtain ⟨hrg, hrest⟩ := List.forall_mem_cons.mp hregs
    obtain ⟨krnl', rfl, hfree, halloc⟩ := release_realloc hmmap hvmait hrg
    have hholding := holding_withRegion hvmait hnodup (fun r' hmem => ⟨rfl, hrest r' hmem⟩) after
      ⟨0, 0⟩ (krnl.mm.symrgtbl r) vma.vmFreergList
    have hinner := Lts.run_undo (I := Holding krnl.mm) (fun _ _ _ h => h.step) hholding
    refine ⟨_, nonempty_leftover_size (krnl.mm.symrgtbl r) _, ?_⟩
    rw [List.map_cons, List.reverse_cons, List.map_append, List.cons_append, ← List.append_assoc]
    exact Lts.Run.cons hfree (hinner.snoc halloc)

/-- Register 0 holds 8 bytes, register 1 holds 12, and behind a node without a byte
44 more are free. -/
def twoRegions : Krnl where
  mm := { bareKrnl.mm with
    mmap := [{ vma0 with vmFreergList := [⟨0, 0⟩, ⟨20, 64⟩] }]
    symrgtbl := fun r =>
      if r.val = 0 then ⟨0, 8⟩ else if r.val = 1 then ⟨8, 20⟩ else ⟨0, 0⟩ }
  activeMswp := ⟨[]⟩

theorem releasable_twoRegions : ∀ r ∈ [0, 1], Releasable (twoRegions.mm.symrgtbl r) := by
  unfold Releasable
  decide

/-- Both are released, 0 first, and given their sizes again, 1 first. -/
theorem run_release_realloc_twoRegions :
    ∃ freergs, nonempty freergs = [⟨20, 64⟩] ∧
      succeeding.Run twoRegions ([0, 1].map release ++ [1, 0].map (realloc twoRegions.mm))
        (withFreergs twoRegions { vma0 with vmFreergList := [⟨0, 0⟩, ⟨20, 64⟩] } [] freergs) := by
  have hmmap : twoRegions.mm.mmap = [{ vma0 with vmFreergList := [⟨0, 0⟩, ⟨20, 64⟩] }] := rfl
  exact run_release_realloc hmmap rfl (by decide) releasable_twoRegions

end Libmem

end SimpleOs
