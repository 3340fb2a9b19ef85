import SimpleOs.Conservation

/-!
# The size of an allocation

The size of an allocation has 64 bits. `get_free_vmrg_area` takes it as an `int`,
so what it looks for and cuts off has the lower half of the size, extended by its
sign; a size with a negative lower half moves the start of the free region
downwards. A region at the program break starts at `sbrk` as an `int`, extended by
its sign as well, and its end is computed from the whole size.

Results:
1. `freeBytes_take_subset_iff`: when the free list gains bytes as a region is taken.
2. `liballoc_result`: what is recorded for the register, served or at the break.
3. `allocExact_iff`: when the size is that asked for and no byte becomes free.
-/

namespace SimpleOs

namespace Libmem

open Cover MmStruct

/-- The size as `get_free_vmrg_area` adds it to an address. -/
def intSize (size : Addr) : Addr :=
  (size.setWidth 32).signExtend 64

/-- `old_sbrk` as it is added to the size. -/
def oldSbrk (cur : VmaCursor) : Addr :=
  (cur.vma.sbrk.setWidth 32).signExtend 64

/-- The bytes of the free lists. -/
def freeBytes (mm : MmStruct) : Set ℕ :=
  covered (mm.mmap.flatMap VmArea.vmFreergList)

/-- The region has `size` bytes. -/
def HasSize (size : Addr) (rg : VmRg) : Prop :=
  (rg.rgEnd.toNat : ℤ) - rg.rgStart.toNat = size.toNat

/-- If `liballoc` returns 0, a region is recorded for the register, it has the size
asked for, and no byte is free that was not before. Nothing is recorded outside the
symbol table, where `__alloc` writes without looking at the register; a call that
follows a null pointer returns nothing. -/
def AllocExact (krnl : Krnl) (size : Addr) (reg : BitVec 32) : Prop :=
  match liballoc krnl size reg with
  | .ok (val, krnl') => val = 0 → ∃ r : Fin pagingMaxSymtblSz, reg.toNat = r ∧
      HasSize size (krnl'.mm.symrgtbl r) ∧ freeBytes krnl'.mm ⊆ freeBytes krnl.mm
  | .error e => e = .nullDeref

/-- The size survives: as an `int` where a free region serves the request, and in
the sum with the start of the region. A free region that starts at -1 serves
nobody, but is cut; what is left of it must have been free. -/
def SizeKept (mm : MmStruct) (cur : VmaCursor) (size : Addr) : Prop :=
  match servingRg mm size with
  | none => (oldSbrk cur).toNat + size.toNat < 2 ^ 64
  | some rg =>
    if rg.rgStart = -1 then
      (oldSbrk cur).toNat + size.toNat < 2 ^ 64 ∧
        VmRg.bytes ⟨rg.rgStart + intSize size, rg.rgEnd⟩ ⊆ freeBytes mm
    else intSize size = size ∧ rg.rgStart.toNat + size.toNat < 2 ^ 64

/-! ## The size of a region -/

/-- A region made of a start and an offset has the size `size` exactly if the
offset is that size and the sum does not wrap. -/
theorem hasSize_iff (start offset size : Addr) :
    HasSize size ⟨start, start + offset⟩ ↔
      offset = size ∧ start.toNat + size.toNat < 2 ^ 64 := by
  unfold HasSize
  constructor
  · intro h
    have hend : (start + offset).toNat = start.toNat + size.toNat := by
      dsimp only at h
      omega
    have hlt : start.toNat + size.toNat < 2 ^ 64 := hend ▸ (start + offset).isLt
    have hsum : start + offset = start + size := by
      apply BitVec.eq_of_toNat_eq
      rw [hend, BitVec.toNat_add, Nat.mod_eq_of_lt hlt]
    exact ⟨add_left_cancel hsum, hlt⟩
  · rintro ⟨rfl, hlt⟩
    dsimp only
    rw [BitVec.toNat_add, Nat.mod_eq_of_lt hlt]
    omega

/-! ## The free bytes -/

theorem covered_append (rgs rgs' : List VmRg) :
    covered (rgs ++ rgs') = covered rgs ∪ covered rgs' := by
  unfold covered
  rw [List.map_append, union_append]

theorem covered_cons (rg : VmRg) (rgs : List VmRg) :
    covered (rg :: rgs) = rg.bytes ∪ covered rgs :=
  union_cons

theorem covered_nonempty (rgs : List VmRg) : covered (nonempty rgs) = covered rgs :=
  union_eq (mult_nonempty rgs)

theorem covered_leftover (size : Addr) (rg : VmRg) (back : List VmRg) :
    covered (leftover size rg back) =
      VmRg.bytes ⟨rg.rgStart + size, rg.rgEnd⟩ ∪ covered back := by
  have hnil : covered [] = ∅ := union_nil
  rw [← covered_nonempty, nonempty_leftover, covered_append, covered_nonempty, covered_nonempty,
    covered_cons, hnil, Set.union_empty]

theorem covered_put (cur : VmaCursor) (freergs : List VmRg) :
    covered ((cur.put { cur.vma with vmFreergList := freergs }).flatMap VmArea.vmFreergList) =
      covered (cur.before.flatMap VmArea.vmFreergList) ∪
        (covered freergs ∪ covered (cur.after.flatMap VmArea.vmFreergList)) := by
  rw [VmaCursor.put, List.flatMap_append, List.flatMap_cons, covered_append, covered_append]

/-- The end of a region that is left over is part of it, if its start does not
wrap. -/
theorem bytes_cut_subset {size : Addr} {rg : VmRg}
    (hwrap : rg.rgStart.toNat + size.toNat < 2 ^ 64) :
    VmRg.bytes ⟨rg.rgStart + size, rg.rgEnd⟩ ⊆ rg.bytes := by
  apply Set.Ico_subset_Ico_left
  rw [BitVec.toNat_add, Nat.mod_eq_of_lt hwrap]
  exact Nat.le_add_right _ _

/-- The free bytes around the region `rg`. -/
theorem freeBytes_eq {mm : MmStruct} {cur : VmaCursor} {front back : List VmRg} {rg : VmRg}
    (hmmap : cur.put cur.vma = mm.mmap) (hlist : cur.vma.vmFreergList = front ++ rg :: back) :
    freeBytes mm = covered (cur.before.flatMap VmArea.vmFreergList) ∪
      (covered front ∪ (rg.bytes ∪ covered back) ∪
        covered (cur.after.flatMap VmArea.vmFreergList)) := by
  have hput := covered_put cur cur.vma.vmFreergList
  rw [hlist, covered_append, covered_cons] at hput
  rw [freeBytes, ← hmmap, ← hput, ← hlist]

/-- The free list gains nothing exactly if what is left of the region was free. -/
theorem freeBytes_take_subset_iff {mm : MmStruct} {cur : VmaCursor} (size : Addr)
    {front back : List VmRg} {rg : VmRg} (hmmap : cur.put cur.vma = mm.mmap)
    (hlist : cur.vma.vmFreergList = front ++ rg :: back) :
    covered ((cur.put { cur.vma with vmFreergList := front ++ leftover size rg back }).flatMap
        VmArea.vmFreergList) ⊆ freeBytes mm ↔
      VmRg.bytes ⟨rg.rgStart + size, rg.rgEnd⟩ ⊆ freeBytes mm := by
  have hold := freeBytes_eq hmmap hlist
  rw [covered_put, covered_append, covered_leftover]
  constructor
  · intro hsub b hb
    exact hsub (.inr (.inl (.inr (.inl hb))))
  · rintro hsub b (hb | (hb | hb | hb) | hb)
    · rw [hold]
      exact .inl hb
    · rw [hold]
      exact .inr (.inl (.inl hb))
    · exact hsub hb
    · rw [hold]
      exact .inr (.inl (.inr (.inr hb)))
    · rw [hold]
      exact .inr (.inr hb)

/-! ## The call -/

section Call

variable {krnl : Krnl} {size : Addr} {reg : BitVec 32} {r : Fin pagingMaxSymtblSz}
  {cur : VmaCursor}

/-- A free region that starts at -1 is cut and then taken for none. -/
theorem getFreeVmrgArea_eq_cut {newrg : VmRg} {freergs : List VmRg}
    (hcur : getVmaByNum krnl.mm 0 = .ok (some cur))
    (htake : takeFreerg (intSize size) cur.vma.vmFreergList = some (newrg, freergs))
    (hstart : newrg.rgStart = -1) :
    getFreeVmrgArea krnl.mm 0 (size.setWidth 32) =
      .ok (none, { krnl.mm with mmap := cur.put { cur.vma with vmFreergList := freergs } }) := by
  unfold getFreeVmrgArea
  rw [hcur, ok_bind]
  dsimp only
  rw [show takeFreerg ((size.setWidth 32).signExtend 64) _ = _ from htake]
  dsimp only
  rw [if_pos hstart]
  rfl

/-- Without a free region the region starts at the break of the area. -/
theorem liballoc_atBreak {mm' : MmStruct} (hreg : reg.toNat = r)
    (hcur : getVmaByNum krnl.mm 0 = .ok (some cur))
    (h : getFreeVmrgArea krnl.mm 0 (size.setWidth 32) = .ok (none, mm')) :
    liballoc krnl size reg = .ok (0, { krnl with mm := { mm' with
      symrgtbl := Function.update mm'.symrgtbl r ⟨oldSbrk cur, oldSbrk cur + size⟩ } }) :=
  liballoc_notFound hcur hreg h

/-- The region that serves the request is the first one with room. -/
theorem servingRg_eq (hcur : getVmaByNum krnl.mm 0 = .ok (some cur)) :
    servingRg krnl.mm size = cur.vma.vmFreergList.find? fun rg => HasRoom (intSize size) rg := by
  unfold servingRg
  rw [hcur]
  rfl

/-- The call returns 0, and it has done what was asked exactly if the size
survives. -/
theorem liballoc_result (hreg : reg.toNat = r)
    (hcur : getVmaByNum krnl.mm 0 = .ok (some cur)) :
    ∃ krnl', liballoc krnl size reg = .ok (0, krnl') ∧
      (HasSize size (krnl'.mm.symrgtbl r) ∧ freeBytes krnl'.mm ⊆ freeBytes krnl.mm ↔
        SizeKept krnl.mm cur size) := by
  have hserving := @servingRg_eq krnl size cur hcur
  unfold SizeKept
  cases hfind : servingRg krnl.mm size with
  | none =>
    rw [hfind] at hserving
    have htake : takeFreerg (intSize size) cur.vma.vmFreergList = none := by
      rw [takeFreerg_eq_none_iff]
      simpa using List.find?_eq_none.mp hserving.symm
    refine ⟨_, liballoc_atBreak hreg hcur (getFreeVmrgArea_eq_none hcur htake), ?_⟩
    dsimp only
    rw [Function.update_self, hasSize_iff]
    exact ⟨fun h => h.1.2, fun h => ⟨⟨rfl, h⟩, subset_rfl⟩⟩
  | some rg =>
    rw [hfind] at hserving
    obtain ⟨hroom, front, back, hlist, hfront⟩ :=
      List.find?_eq_some_iff_append.mp hserving.symm
    have htake : takeFreerg (intSize size) cur.vma.vmFreergList =
        some (⟨rg.rgStart, rg.rgStart + intSize size⟩,
          front ++ leftover (intSize size) rg back) := by
      rw [hlist]
      exact takeFreerg_append back (by simpa using hfront) (by simpa using hroom)
    have hfree := freeBytes_take_subset_iff (intSize size) (put_vma hcur) hlist
    dsimp only
    split
    · next hstart =>
      refine ⟨_, liballoc_atBreak hreg hcur (getFreeVmrgArea_eq_cut hcur htake hstart), ?_⟩
      dsimp only
      rw [Function.update_self, hasSize_iff, ← hfree]
      exact ⟨fun h => ⟨h.1.2, h.2⟩, fun h => ⟨⟨rfl, h.1⟩, h.2⟩⟩
    · next hstart =>
      refine ⟨_, liballoc_served hreg (getFreeVmrgArea_eq_some hcur htake hstart), ?_⟩
      dsimp only
      rw [Function.update_self, hasSize_iff]
      refine ⟨fun h => h.1, fun h => ⟨h, hfree.mpr ?_⟩⟩
      rw [h.1, freeBytes_eq (put_vma hcur) hlist]
      intro b hb
      exact .inr (.inl (.inr (.inl (bytes_cut_subset h.2 hb))))

end Call

/-- An allocation is exact where there is no area to allocate in, and otherwise
exactly for a register in the table, if the size survives. -/
theorem allocExact_iff (krnl : Krnl) (size : Addr) (reg : BitVec 32) :
    AllocExact krnl size reg ↔
      ∀ cur, getVmaByNum krnl.mm 0 = .ok (some cur) →
        reg.toNat < pagingMaxSymtblSz ∧ SizeKept krnl.mm cur size := by
  unfold AllocExact
  cases hvma : getVmaByNum krnl.mm 0 with
  | error e =>
    rw [liballoc_error hvma]
    exact iff_of_true (getVmaByNum_fault hvma).1 fun cur hcur => by cases hcur
  | ok curVma =>
    cases curVma with
    | none =>
      rw [liballoc_null hvma]
      exact iff_of_true rfl fun cur hcur => by cases hcur
    | some cur =>
      rcases Nat.lt_or_ge reg.toNat pagingMaxSymtblSz with hlt | hge
      · obtain ⟨krnl', hcall, hiff⟩ :=
          @liballoc_result krnl size reg ⟨reg.toNat, hlt⟩ cur rfl hvma
        rw [hcall]
        constructor
        · rintro hexact cur' hcur
          cases hcur
          obtain ⟨r, hr, hresult⟩ := hexact rfl
          have hsame : ⟨reg.toNat, hlt⟩ = r := Fin.ext hr
          rw [← hsame] at hresult
          exact ⟨hlt, hiff.mp hresult⟩
        · intro hkept _
          exact ⟨⟨reg.toNat, hlt⟩, rfl, hiff.mpr (hkept cur rfl).2⟩
      · rw [liballoc_outside hvma hge]
        refine iff_of_false (fun h => by cases h) fun hkept => ?_
        exact absurd (hkept cur rfl).1 hge.not_gt

/-- An `ALLOC` of 4 GiB is served with 0 bytes: the size is 0 as an `int`, and
every region has room for it. -/
def regionKrnl : Krnl :=
  { bareKrnl with mm := { bareKrnl.mm with
    mmap := [{ vma0 with vmFreergList := [⟨4096, 8192⟩] }] } }

theorem not_allocExact_large :
    ¬ AllocExact bareKrnl (2 ^ 32) 0 ∧ ¬ AllocExact regionKrnl (2 ^ 32 - 16) 0 := by
  constructor
  · intro hexact
    obtain ⟨r, hr, hsize, -⟩ := hexact rfl
    have hzero : 0 = r := Fin.ext hr
    rw [← hzero] at hsize
    revert hsize
    unfold HasSize
    decide
  · intro hexact
    obtain ⟨r, -, -, hfree⟩ := hexact rfl
    have hnew : 4080 ∈ VmRg.bytes ⟨4080, 8192⟩ := ⟨by decide, by decide⟩
    have hold : 4080 ∉ VmRg.bytes ⟨4096, 8192⟩ := fun h => absurd h.1 (by decide)
    obtain ⟨bytes, hmem, hb⟩ := hfree ⟨_, List.mem_singleton_self _, hnew⟩
    cases List.mem_singleton.mp hmem
    exact hold hb

end Libmem

end SimpleOs
