import SimpleOs.Mm

/-!
# The vm areas of a process

`get_vma_by_num` walks the list of areas, which is ordered by `vm_id`, up to the
first id that is not below the one looked for. It does not compare the two, and
it reads the id of the next area before it tests whether there is one.
`validate_overlap_vm_area` looks an area up this way and walks the list to see
whether a range planned for it runs into another one. The test is the macro
`OVERLAP`, which is 0, and its arguments are the bounds of the area and not those
of the planned range.

Results:
1. `looksUp_iff`: a lookup does what it should exactly if the list is empty or
   has an area with the id.
2. `validates_iff`: the validation is right exactly about empty ranges and about
   ranges that run into no other area.
-/

namespace SimpleOs

namespace MmStruct

/-! ## Looking up an area -/

/-- The ids of the areas are strictly increasing. -/
def IdsIncreasing (mm : MmStruct) : Prop :=
  mm.mmap.Pairwise fun vma vma' => vma.vmId < vma'.vmId

/-- The area has the id `vmaid`, which is an `int`. -/
def HasId (vma : VmArea) (vmaid : BitVec 32) : Prop :=
  (vma.vmId.toNat : ℤ) = vmaid.toInt

instance (vma : VmArea) (vmaid : BitVec 32) : Decidable (HasId vma vmaid) :=
  inferInstanceAs (Decidable ((vma.vmId.toNat : ℤ) = vmaid.toInt))

/-- The lookup returns the area with the id, or NULL if there is none. -/
def LooksUp (mm : MmStruct) (vmaid : BitVec 32) : Prop :=
  ∃ result, getVmaByNum mm vmaid.toInt = .ok result ∧
    (∀ cur, result = some cur → mm.mmap = cur.put cur.vma ∧ HasId cur.vma vmaid) ∧
    (result = none → ∀ vma ∈ mm.mmap, ¬ HasId vma vmaid)

/-- An id that fits an `int` is not changed by the conversion. -/
theorem vmait_of_toNat_lt {vma : VmArea} (h : vma.vmId.toNat < 2 ^ 31) :
    vma.vmait = vma.vmId.toNat := by
  unfold VmArea.vmait
  rw [BitVec.toInt_setWidth]
  exact Int.bmod_eq_of_le (by omega) (by omega)

theorem toNat_lt_of_hasId {vma : VmArea} {vmaid : BitVec 32} (hid : HasId vma vmaid) :
    vma.vmId.toNat < 2 ^ 31 := by
  have hbound : vmaid.toInt < 2 ^ 31 := BitVec.toInt_lt
  unfold HasId at hid
  omega

/-- The loop goes on at the areas before the one with the id. -/
theorem vmait_lt_of_hasId {vma vma' : VmArea} {vmaid : BitVec 32} (hlt : vma'.vmId < vma.vmId)
    (hid : HasId vma vmaid) : vma'.vmait < vmaid.toInt := by
  have hnat : vma'.vmId.toNat < vma.vmId.toNat := hlt
  rw [vmait_of_toNat_lt (hnat.trans (toNat_lt_of_hasId hid)), ← hid]
  exact_mod_cast hnat

/-- And it stops at that area. -/
theorem vmait_eq_of_hasId {vma : VmArea} {vmaid : BitVec 32} (hid : HasId vma vmaid) :
    vma.vmait = vmaid.toInt :=
  (vmait_of_toNat_lt (toNat_lt_of_hasId hid)).trans hid

/-- The area with the id is found. -/
theorem getVmaByNum_of_hasId {mm : MmStruct} {vmaid : BitVec 32} {before after : List VmArea}
    {vma : VmArea} (hids : IdsIncreasing mm) (hmmap : mm.mmap = before ++ vma :: after)
    (hid : HasId vma vmaid) : getVmaByNum mm vmaid.toInt = .ok (some ⟨before, vma, after⟩) := by
  have hbefore : ∀ vma' ∈ before, vma'.vmait < vmaid.toInt := by
    unfold IdsIncreasing at hids
    rw [hmmap, List.pairwise_append] at hids
    exact fun vma' hmem => vmait_lt_of_hasId (hids.2.2 vma' hmem vma (List.mem_cons_self ..)) hid
  have hseek : seekVma vmaid.toInt [] mm.mmap = .ok ⟨before, vma, after⟩ := by
    rw [hmmap, seekVma_append hbefore, List.nil_append, seekVma,
      if_neg (vmait_eq_of_hasId hid).not_lt]
  have hne : mm.mmap ≠ [] := by
    rw [hmmap]
    exact List.append_ne_nil_of_right_ne_nil _ (List.cons_ne_nil _ _)
  obtain ⟨head, rest, hcons⟩ := List.exists_cons_of_ne_nil hne
  unfold getVmaByNum
  rw [hcons] at hseek ⊢
  dsimp only
  rw [hseek]
  rfl

/-- A lookup is exact if the list is empty or has an area with the id. In any
other list it runs off the end or stops at an area with another id. -/
theorem looksUp_iff {mm : MmStruct} (hids : IdsIncreasing mm) (vmaid : BitVec 32) :
    LooksUp mm vmaid ↔ mm.mmap = [] ∨ ∃ vma ∈ mm.mmap, HasId vma vmaid := by
  constructor
  · rintro ⟨result, hcall, hsome, -⟩
    rcases eq_or_ne mm.mmap [] with hnil | hne
    · exact .inl hnil
    · obtain ⟨cur, rfl⟩ := getVmaByNum_eq_some hne hcall
      obtain ⟨hmmap, hid⟩ := hsome cur rfl
      refine .inr ⟨cur.vma, ?_, hid⟩
      rw [hmmap]
      exact List.mem_append_right _ (List.mem_cons_self ..)
  · rintro (hnil | ⟨vma, hmem, hid⟩)
    · refine ⟨none, getVmaByNum_nil hnil _, ?_, ?_⟩
      · intro cur hcur
        cases hcur
      · intro _ vma hmem
        rw [hnil] at hmem
        cases hmem
    · obtain ⟨before, after, hmmap⟩ := List.append_of_mem hmem
      refine ⟨_, getVmaByNum_of_hasId hids hmmap hid, ?_, fun h => by cases h⟩
      intro cur hcur
      cases hcur
      exact ⟨hmmap, hid⟩

/-- Two areas with a gap between their ids, and the one behind it. -/
def gapAreas : MmStruct where
  pgd := fun _ => 0
  mmap := [⟨0, 0, 256, 0, []⟩, ⟨3, 1024, 2048, 1024, []⟩]
  symrgtbl := fun _ => ⟨0, 0⟩
  fifoPgn := []

theorem looksUp_gapAreas : IdsIncreasing gapAreas ∧ LooksUp gapAreas 3 := by
  have hids : IdsIncreasing gapAreas := by
    unfold IdsIncreasing gapAreas
    decide
  exact ⟨hids, (looksUp_iff hids 3).mpr (.inr ⟨⟨3, 1024, 2048, 1024, []⟩, by simp [gapAreas], rfl⟩)⟩

/-- An id behind the last one: the loop follows the null pointer at the end. An
id in the gap and a negative one: the loop stops at the next area. -/
theorem not_looksUp_gapAreas :
    IdsIncreasing gapAreas ∧ ¬ LooksUp gapAreas 4 ∧ ¬ LooksUp gapAreas 1 ∧
      ¬ LooksUp gapAreas (-1) := by
  have hpast : getVmaByNum gapAreas 4 = .error .nullDeref := rfl
  have hgap : getVmaByNum gapAreas 1 =
      .ok (some ⟨[⟨0, 0, 256, 0, []⟩], ⟨3, 1024, 2048, 1024, []⟩, []⟩) := rfl
  have hneg : getVmaByNum gapAreas (-1) =
      .ok (some ⟨[], ⟨0, 0, 256, 0, []⟩, [⟨3, 1024, 2048, 1024, []⟩]⟩) := rfl
  refine ⟨by unfold IdsIncreasing gapAreas; decide, ?_, ?_, ?_⟩
  · rintro ⟨result, hcall, -⟩
    cases hpast.symm.trans hcall
  · rintro ⟨result, hcall, hsome, -⟩
    cases hgap.symm.trans hcall
    exact absurd (hsome _ rfl).2 (by decide)
  · rintro ⟨result, hcall, hsome, -⟩
    cases hneg.symm.trans hcall
    exact absurd (hsome _ rfl).2 (by decide)

/-! ## Validating a planned range -/

/-- `OVERLAP(x1,x2,y1,y2)`. -/
def overlap (_x1 _x2 _y1 _y2 : Addr) : Bool :=
  false

/-- The loop of `validate_overlap_vm_area` from the area at the position `pos` on.
`curPos` is the position of `cur_area`: the loop compares pointers. -/
def overlapLoop (curPos : ℕ) (curArea : VmArea) : ℕ → List VmArea → ℤ
  | _, [] => 0
  | pos, vma :: next =>
    -- The planned range is not an argument.
    if pos ≠ curPos ∧ overlap curArea.vmStart curArea.vmEnd vma.vmStart vma.vmEnd = true then -1
    else overlapLoop curPos curArea (pos + 1) next

/-- `validate_overlap_vm_area`. -/
def validateOverlapVmArea (mm : MmStruct) (vmaid : ℤ) (vmastart vmaend : Addr) :
    Except Fault ℤ :=
  if vmastart ≥ vmaend then .ok (-1)
  else
    match mm.mmap with
    | [] => .ok (-1)
    | vma :: next => do
      match ← getVmaByNum mm vmaid with
      | none => return -1
      | some curArea => return overlapLoop curArea.before.length curArea.vma 0 (vma :: next)

/-- The bytes of an area. -/
def vmBytes (vma : VmArea) : Set ℕ :=
  Set.Ico vma.vmStart.toNat vma.vmEnd.toNat

/-- The planned range has no byte in an area with another id. -/
def RangeFree (mm : MmStruct) (vmaid : BitVec 32) (vmastart vmaend : Addr) : Prop :=
  ∀ vma ∈ mm.mmap, ¬ HasId vma vmaid →
    Disjoint (Set.Ico vmastart.toNat vmaend.toNat) (vmBytes vma)

/-- The validation returns 0 exactly for a range that is not empty and runs into
no other area. -/
def Validates (mm : MmStruct) (vmaid : BitVec 32) (vmastart vmaend : Addr) : Prop :=
  validateOverlapVmArea mm vmaid.toInt vmastart vmaend = .ok 0 ↔
    vmastart < vmaend ∧ RangeFree mm vmaid vmastart vmaend

/-- The loop finds nothing. -/
theorem overlapLoop_eq_zero (curPos : ℕ) (curArea : VmArea) (pos : ℕ) (areas : List VmArea) :
    overlapLoop curPos curArea pos areas = 0 := by
  induction areas generalizing pos with
  | nil => rfl
  | cons vma areas ih =>
    have hno : ¬ (pos ≠ curPos ∧
        overlap curArea.vmStart curArea.vmEnd vma.vmStart vma.vmEnd = true) := by
      rintro ⟨-, h⟩
      cases h
    rw [overlapLoop, if_neg hno]
    exact ih (pos + 1)

/-- Every range is accepted that is not empty. -/
theorem validateOverlapVmArea_eq_zero_iff {mm : MmStruct} {vmaid : BitVec 32}
    (hids : IdsIncreasing mm) (hmem : ∃ vma ∈ mm.mmap, HasId vma vmaid) (vmastart vmaend : Addr) :
    validateOverlapVmArea mm vmaid.toInt vmastart vmaend = .ok 0 ↔ vmastart < vmaend := by
  obtain ⟨vma, hmem, hid⟩ := hmem
  obtain ⟨before, after, hmmap⟩ := List.append_of_mem hmem
  obtain ⟨head, rest, hcons⟩ := List.exists_cons_of_ne_nil (List.ne_nil_of_mem hmem)
  unfold validateOverlapVmArea
  split
  · next hge =>
    refine ⟨fun hret => ?_, fun hlt => absurd hlt (BitVec.not_lt.mpr hge)⟩
    cases hret
  · next hlt =>
    refine ⟨fun _ => BitVec.not_le.mp hlt, fun _ => ?_⟩
    rw [hcons, getVmaByNum_of_hasId hids hmmap hid]
    exact congrArg Except.ok (overlapLoop_eq_zero ..)

/-- The validation is right about a range exactly if it is empty or runs into no
other area. -/
theorem validates_iff {mm : MmStruct} {vmaid : BitVec 32} (hids : IdsIncreasing mm)
    (hmem : ∃ vma ∈ mm.mmap, HasId vma vmaid) (vmastart vmaend : Addr) :
    Validates mm vmaid vmastart vmaend ↔
      vmaend ≤ vmastart ∨ RangeFree mm vmaid vmastart vmaend := by
  unfold Validates
  rw [validateOverlapVmArea_eq_zero_iff hids hmem, ← BitVec.not_lt]
  tauto

/-- The area 3 is to grow to a range that the area 0 does not reach. -/
theorem validates_gapAreas : Validates gapAreas 3 1024 4096 := by
  have hids : IdsIncreasing gapAreas := by
    unfold IdsIncreasing gapAreas
    decide
  have hmem : ∃ vma ∈ gapAreas.mmap, HasId vma 3 :=
    ⟨⟨3, 1024, 2048, 1024, []⟩, by simp [gapAreas], rfl⟩
  refine (validates_iff hids hmem 1024 4096).mpr (.inr ?_)
  intro vma hvma hid
  simp only [gapAreas, List.mem_cons, List.not_mem_nil, or_false] at hvma
  rcases hvma with rfl | rfl
  · simp [vmBytes, Set.Ico_disjoint_Ico]
  · exact absurd rfl hid

/-- The area 0 is to grow over the area 3: this is accepted. -/
theorem not_validates_gapAreas :
    IdsIncreasing gapAreas ∧ (∃ vma ∈ gapAreas.mmap, HasId vma 0) ∧
      ¬ Validates gapAreas 0 0 4096 := by
  refine ⟨by unfold IdsIncreasing gapAreas; decide,
    ⟨⟨0, 0, 256, 0, []⟩, by simp [gapAreas], rfl⟩, fun h => ?_⟩
  have hcall : validateOverlapVmArea gapAreas 0 0 4096 = .ok 0 := rfl
  have hfree := (h.mp hcall).2 ⟨3, 1024, 2048, 1024, []⟩ (by simp [gapAreas]) (by decide)
  have hplanned : 1024 ∈ Set.Ico (0 : Addr).toNat (4096 : Addr).toNat := by simp
  exact Set.disjoint_left.mp hfree hplanned (by simp [vmBytes])

end MmStruct

end SimpleOs
