import SimpleOs.Common

/-!
# The memory map

`mm_struct` of the 64-bit build, with its lists as lists: the vm areas, the free
regions of each area from the head on, the page FIFO from the head on. Pointers
into a list are positions in it. The `vmaid` of a region and the `rg_next` of an
entry of the symbol table are never read and left out.
-/

namespace SimpleOs

/-- `struct vm_rg_struct`. -/
@[ext]
structure VmRg where
  rgStart : Addr
  rgEnd : Addr
  deriving DecidableEq, Repr

/-- The bytes of a region. -/
def VmRg.bytes (rg : VmRg) : Set ℕ :=
  Set.Ico rg.rgStart.toNat rg.rgEnd.toNat

/-- `struct vm_area_struct`. -/
structure VmArea where
  vmId : BitVec 64
  vmStart : Addr
  vmEnd : Addr
  sbrk : Addr
  vmFreergList : List VmRg
  deriving DecidableEq, Repr

/-- `vm_id` as the `int` that `get_vma_by_num` compares. -/
def VmArea.vmait (vma : VmArea) : ℤ :=
  (vma.vmId.setWidth 32).toInt

/-- `PAGING_MAX_SYMTBL_SZ`. -/
abbrev pagingMaxSymtblSz : ℕ := 30

/-- `struct mm_struct`; of the page directories only the one that
`pte_set_entry` writes. -/
structure MmStruct where
  pgd : ℕ → Addr
  mmap : List VmArea
  symrgtbl : Fin pagingMaxSymtblSz → VmRg
  fifoPgn : List Addr

/-- The vm area that `init_mm` makes, with its one empty region. -/
def vma0 : VmArea where
  vmId := 0
  vmStart := 0
  vmEnd := 0
  sbrk := 0
  vmFreergList := [⟨0, 0⟩]

namespace MmStruct

/-- A pointer to an area: the area and the rest of the list. -/
structure VmaCursor where
  before : List VmArea
  vma : VmArea
  after : List VmArea

/-- The list with the area pointed to replaced by `vma`. -/
def VmaCursor.put (cur : VmaCursor) (vma : VmArea) : List VmArea :=
  cur.before ++ vma :: cur.after

/-- The loop of `get_vma_by_num`. -/
def seekVma (vmaid : ℤ) (before : List VmArea) : List VmArea → Except Fault VmaCursor
  -- The loop reads `pvma->vm_id` before it tests `pvma`.
  | [] => .error .nullDeref
  | vma :: after =>
    if vma.vmait < vmaid then seekVma vmaid (before ++ [vma]) after
    else .ok ⟨before, vma, after⟩

/-- `get_vma_by_num`, with `none` for NULL. -/
def getVmaByNum (mm : MmStruct) (vmaid : ℤ) : Except Fault (Option VmaCursor) :=
  match mm.mmap with
  | [] => .ok none
  | vma :: after => (seekVma vmaid [] (vma :: after)).map some

/-- `get_symrg_byid`: the index of the region pointed to, or `none` for NULL. -/
def getSymrgById (rgid : ℤ) : Option ℤ :=
  if rgid < 0 ∨ rgid > pagingMaxSymtblSz then none else some rgid

/-- The entry `symrgtbl[rgid]`, which the code reads or writes without a bound. -/
def symIndex (rgid : ℤ) : Except Fault (Fin pagingMaxSymtblSz) :=
  if h : 0 ≤ rgid ∧ rgid.toNat < pagingMaxSymtblSz then .ok ⟨rgid.toNat, h.2⟩
  else .error .outOfBounds

/-- `enlist_vm_freerg_list`: the return value and the map after the call. -/
def enlistVmFreergList (mm : MmStruct) (rgElmt : VmRg) : Except Fault (ℤ × MmStruct) :=
  match mm.mmap with
  | [] => .error .nullDeref
  | vma :: after =>
    if rgElmt.rgStart ≥ rgElmt.rgEnd then .ok (-1, mm)
    else
      let vma := { vma with vmFreergList := rgElmt :: vma.vmFreergList }
      .ok (0, { mm with mmap := vma :: after })

/-- The loop of `get_free_vmrg_area`: the region taken and the list without it,
or `none` if no region is large enough. -/
def takeFreerg (size : Addr) : List VmRg → Option (VmRg × List VmRg)
  | [] => none
  | rgit :: next =>
    if rgit.rgStart + size ≤ rgit.rgEnd then
      let newrg : VmRg := ⟨rgit.rgStart, rgit.rgStart + size⟩
      if rgit.rgStart + size < rgit.rgEnd then
        some (newrg, { rgit with rgStart := rgit.rgStart + size } :: next)
      else
        match next with
        -- The last node stays, with no byte in it.
        | [] => some (newrg, [⟨rgit.rgEnd, rgit.rgEnd⟩])
        -- The node becomes a clone of the next one, which is freed.
        | nextrg :: rest => some (newrg, nextrg :: rest)
    else (takeFreerg size next).map fun (newrg, freergs) => (newrg, rgit :: freergs)

/-- `get_free_vmrg_area`: the region found, or `none` for -1, and the map after
the call. -/
def getFreeVmrgArea (mm : MmStruct) (vmaid : ℤ) (size : BitVec 32) :
    Except Fault (Option VmRg × MmStruct) := do
  match ← getVmaByNum mm vmaid with
  | none => throw .nullDeref
  | some cur =>
    match takeFreerg (size.signExtend 64) cur.vma.vmFreergList with
    | none => return (none, mm)
    | some (newrg, freergs) =>
      let mm := { mm with mmap := cur.put { cur.vma with vmFreergList := freergs } }
      -- A start of -1 stands for "not found", even in a region that was taken.
      if newrg.rgStart = -1 then return (none, mm) else return (some newrg, mm)

/-- `inc_vma_limit`: the body is commented out. -/
def incVmaLimit (mm : MmStruct) (_vmaid : ℤ) (_incSz : Addr) : ℤ × MmStruct :=
  (0, mm)

/-! ## What the lookups return -/

theorem symIndex_ok (r : Fin pagingMaxSymtblSz) : symIndex r = .ok r := by
  have hr : (0 : ℤ) ≤ r ∧ (r : ℤ).toNat < pagingMaxSymtblSz := ⟨Int.natCast_nonneg r, r.isLt⟩
  unfold symIndex
  rw [dif_pos hr]
  rfl

theorem getSymrgById_eq_none {rgid : ℤ} (h : rgid < 0 ∨ rgid > pagingMaxSymtblSz) :
    getSymrgById rgid = none :=
  if_pos h

theorem getSymrgById_eq_some {rgid : ℤ} (h : ¬ (rgid < 0 ∨ rgid > pagingMaxSymtblSz)) :
    getSymrgById rgid = some rgid :=
  if_neg h

/-- A register index in the table is not changed by the conversion to `int`. -/
theorem toInt_of_toNat {reg : BitVec 32} {r : Fin pagingMaxSymtblSz} (h : reg.toNat = r) :
    reg.toInt = r := by
  have hr : (r : ℕ) < 30 := r.isLt
  rw [BitVec.toInt_eq_toNat_of_lt (by omega), h]

/-- The bound on the index as the code tests it. -/
theorem toInt_outside_iff (reg : BitVec 32) :
    (reg.toInt < 0 ∨ reg.toInt > pagingMaxSymtblSz) ↔ pagingMaxSymtblSz < reg.toNat := by
  have hsize : pagingMaxSymtblSz = 30 := rfl
  rw [BitVec.toInt_eq_toNat_cond]
  split <;> omega

/-- The test lets the index behind the last entry through. -/
theorem not_refused_behind {reg : BitVec 32} (h : reg.toNat = pagingMaxSymtblSz) :
    ¬ (reg.toInt < 0 ∨ reg.toInt > pagingMaxSymtblSz) := by
  rw [toInt_outside_iff, h]
  exact Nat.lt_irrefl _

/-- No entry has an index that is not in the table. -/
theorem symIndex_outside {reg : BitVec 32} (h : pagingMaxSymtblSz ≤ reg.toNat) :
    symIndex reg.toInt = .error .outOfBounds := by
  have hsize : pagingMaxSymtblSz = 30 := rfl
  unfold symIndex
  refine dif_neg fun hin => ?_
  rw [BitVec.toInt_eq_toNat_cond] at hin
  split at hin <;> omega

/-- A register index in the table passes the tests of the operations. -/
theorem not_refused_of_fin (r : Fin pagingMaxSymtblSz) :
    ¬ ((r : ℤ) < 0 ∨ (r : ℤ) > pagingMaxSymtblSz) := by
  have hr : (r : ℤ) < pagingMaxSymtblSz := Int.ofNat_lt.mpr r.isLt
  rintro (hneg | hover)
  · exact Int.not_lt.mpr (Int.natCast_nonneg r) hneg
  · exact Int.lt_asymm hr hover

theorem getSymrgById_of_fin (r : Fin pagingMaxSymtblSz) :
    getSymrgById (r : ℤ) = some (r : ℤ) :=
  getSymrgById_eq_some (not_refused_of_fin r)

/-- An `int` below 2^31 keeps its value when it is extended. -/
theorem toNat_signExtend {size : BitVec 32} (h : size.toNat < 2 ^ 31) :
    (size.signExtend 64).toNat = size.toNat := by
  have hmsb : size.msb = false := by
    rw [BitVec.msb_eq_false_iff_two_mul_lt]
    exact Nat.mul_lt_mul_of_pos_left h Nat.two_pos
  rw [BitVec.signExtend_eq_setWidth_of_msb_false hmsb, BitVec.toNat_setWidth_of_le (by decide)]

/-- A size below 2^31 survives the conversion to `int` and back. -/
theorem signExtend_setWidth {size : Addr} (h : size.toNat < 2 ^ 31) :
    (size.setWidth 32).signExtend 64 = size := by
  have hnat : (size.setWidth 32).toNat = size.toNat := by
    rw [BitVec.toNat_setWidth]
    exact Nat.mod_eq_of_lt (h.trans (by decide))
  apply BitVec.eq_of_toNat_eq
  rw [toNat_signExtend (by rwa [hnat]), hnat]

/-- The loop stops at the first area whose id is not below the one looked for. -/
theorem seekVma_append {vmaid : ℤ} {front : List VmArea} (h : ∀ vma ∈ front, vma.vmait < vmaid)
    (before rest : List VmArea) :
    seekVma vmaid before (front ++ rest) = seekVma vmaid (before ++ front) rest := by
  induction front generalizing before with
  | nil => rw [List.nil_append, List.append_nil]
  | cons vma front ih =>
    rw [List.cons_append, seekVma, if_pos (h vma (List.mem_cons_self ..)),
      ih fun vma' hmem => h vma' (List.mem_cons_of_mem _ hmem), List.append_assoc]
    rfl

/-- The loop runs off the end of a list in which every id is below. -/
theorem seekVma_error {vmaid : ℤ} {areas : List VmArea} (h : ∀ vma ∈ areas, vma.vmait < vmaid)
    (before : List VmArea) : seekVma vmaid before areas = .error .nullDeref := by
  have hall := seekVma_append h before []
  rw [List.append_nil] at hall
  rw [hall, seekVma]

theorem seekVma_ok {vmaid : ℤ} {areas : List VmArea} (h : ∃ vma ∈ areas, vmaid ≤ vma.vmait)
    (before : List VmArea) : ∃ cur, seekVma vmaid before areas = .ok cur := by
  induction areas generalizing before with
  | nil => simp at h
  | cons vma areas ih =>
    rw [seekVma]
    split
    · next hlt =>
      refine ih ?_ _
      obtain ⟨vma', hmem, hle⟩ := h
      rcases List.mem_cons.mp hmem with rfl | hmem
      · exact absurd hlt (Int.not_lt.mpr hle)
      · exact ⟨vma', hmem, hle⟩
    · exact ⟨_, rfl⟩

theorem getVmaByNum_nil {mm : MmStruct} (h : mm.mmap = []) (vmaid : ℤ) :
    getVmaByNum mm vmaid = .ok none := by
  unfold getVmaByNum
  rw [h]

/-- The loop makes no round if the id of the first area is not below. -/
theorem getVmaByNum_front {mm : MmStruct} {vmaid : ℤ} {vma : VmArea} {after : List VmArea}
    (hmmap : mm.mmap = vma :: after) (hid : vmaid ≤ vma.vmait) :
    getVmaByNum mm vmaid = .ok (some ⟨[], vma, after⟩) := by
  unfold getVmaByNum
  rw [hmmap]
  simp only [seekVma]
  rw [if_neg (Int.not_lt.mpr hid)]
  rfl

theorem getVmaByNum_error {mm : MmStruct} {vmaid : ℤ} (hne : mm.mmap ≠ [])
    (h : ∀ vma ∈ mm.mmap, vma.vmait < vmaid) : getVmaByNum mm vmaid = .error .nullDeref := by
  obtain ⟨vma, after, hmmap⟩ := List.exists_cons_of_ne_nil hne
  simp only [getVmaByNum, hmmap]
  rw [seekVma_error (hmmap ▸ h)]
  rfl

theorem getVmaByNum_ok {mm : MmStruct} {vmaid : ℤ} (h : ∃ vma ∈ mm.mmap, vmaid ≤ vma.vmait) :
    ∃ cur, getVmaByNum mm vmaid = .ok (some cur) := by
  obtain ⟨vma, after, hmmap⟩ : ∃ vma after, mm.mmap = vma :: after := by
    obtain ⟨vma, hmem, -⟩ := h
    exact List.exists_cons_of_ne_nil (List.ne_nil_of_mem hmem)
  obtain ⟨cur, hcur⟩ := seekVma_ok (hmmap ▸ h) []
  simp only [getVmaByNum, hmmap]
  exact ⟨cur, by rw [hcur]; rfl⟩

/-- The list is run off only where no area has an id that is large enough. -/
theorem getVmaByNum_fault {mm : MmStruct} {vmaid : ℤ} {e : Fault}
    (h : getVmaByNum mm vmaid = .error e) :
    e = .nullDeref ∧ ∀ vma ∈ mm.mmap, vma.vmait < vmaid := by
  have hall : ∀ vma ∈ mm.mmap, vma.vmait < vmaid := by
    by_contra hnot
    push Not at hnot
    obtain ⟨cur, hcur⟩ := getVmaByNum_ok hnot
    cases hcur.symm.trans h
  refine ⟨?_, hall⟩
  rcases eq_or_ne mm.mmap [] with hnil | hne
  · cases (getVmaByNum_nil hnil vmaid).symm.trans h
  · cases (getVmaByNum_error hne hall).symm.trans h
    rfl

/-- When an area is found. -/
theorem exists_getVmaByNum_iff {mm : MmStruct} {vmaid : ℤ} :
    (∃ cur, getVmaByNum mm vmaid = .ok (some cur)) ↔ ∃ vma ∈ mm.mmap, vmaid ≤ vma.vmait := by
  refine ⟨fun ⟨cur, hcur⟩ => ?_, getVmaByNum_ok⟩
  by_contra hnone
  push Not at hnone
  rcases eq_or_ne mm.mmap [] with hnil | hne
  · cases (getVmaByNum_nil hnil vmaid).symm.trans hcur
  · cases (getVmaByNum_error hne hnone).symm.trans hcur

/-- In a list with an area, NULL is not returned. -/
theorem getVmaByNum_eq_some {mm : MmStruct} {vmaid : ℤ} {result : Option VmaCursor}
    (hne : mm.mmap ≠ []) (h : getVmaByNum mm vmaid = .ok result) : ∃ cur, result = some cur := by
  obtain ⟨vma, after, hmmap⟩ := List.exists_cons_of_ne_nil hne
  unfold getVmaByNum at h
  rw [hmmap] at h
  obtain ⟨cur, -, hcur⟩ := map_eq_ok.mp h
  exact ⟨cur, hcur.symm⟩

end MmStruct

end SimpleOs
