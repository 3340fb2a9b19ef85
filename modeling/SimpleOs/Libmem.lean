import SimpleOs.Fifo
import SimpleOs.Memphy
import SimpleOs.Mm
import SimpleOs.Pte
import SimpleOs.Translation

/-!
# The memory library

`liballoc`, `libfree`, `libread` and `libwrite` of the 64-bit build, from the
kernel structure `proc->krnl` to the kernel structure after the call. Each
returns the value the C function returns; where the C function follows a null
pointer or leaves an array, it returns a fault. The lock `mmvm_lock` is left
out: one call is one step.

The other modules do not unfold the calls. They use the equations for a register
inside, above and behind the table (`liballoc_served`, `libfree_region`,
`libread_inTable`, `libwrite_outside` and so on), and for a call that returns
`liballoc_eq_ok`, `libfree_eq_ok`, `libread_eq_ok_iff` and `libwrite_eq_ok`.
-/

namespace SimpleOs

namespace Libmem

open MmStruct Fifo

/-- `struct krnl_t`: the memory map and the swap device in use. -/
structure Krnl where
  mm : MmStruct
  activeMswp : Memphy Addr

/-- A kernel with one empty vm area, no region, no page and no swap frame. -/
def bareKrnl : Krnl where
  mm := { pgd := fun _ => 0, mmap := [vma0], symrgtbl := fun _ => ⟨0, 0⟩, fifoPgn := [] }
  activeMswp := ⟨[]⟩

/-! ## Allocating and freeing -/

/-- `__alloc`: the return value, `*alloc_addr`, and the kernel after the call. -/
def alloc (krnl : Krnl) (vmaid rgid : ℤ) (size : Addr) : Except Fault (ℤ × Addr × Krnl) := do
  let curVma ← getVmaByNum krnl.mm vmaid
  match ← getFreeVmrgArea krnl.mm vmaid (size.setWidth 32) with
  | (some rgnode, mm) =>
    let r ← symIndex rgid
    let mm := { mm with symrgtbl := Function.update mm.symrgtbl r rgnode }
    return (0, rgnode.rgStart, { krnl with mm := mm })
  | (none, mm) =>
    match curVma with
    | none => throw .nullDeref
    | some cur =>
      let oldSbrk : BitVec 32 := cur.vma.sbrk.setWidth 32
      -- System call 17 with `SYSMEM_INC_OP`; its return value is dropped.
      let mm := (incVmaLimit mm vmaid size).2
      let r ← symIndex rgid
      let rg : VmRg := ⟨oldSbrk.signExtend 64, oldSbrk.signExtend 64 + size⟩
      let mm := { mm with symrgtbl := Function.update mm.symrgtbl r rg }
      return (0, oldSbrk.signExtend 64, { krnl with mm := mm })

/-- `liballoc`. -/
def liballoc (krnl : Krnl) (size : Addr) (regIndex : BitVec 32) : Except Fault (ℤ × Krnl) := do
  let (val, _, krnl) ← alloc krnl 0 regIndex.toInt size
  if val = -1 then return (-1, krnl) else return (val, krnl)

/-- `__free`. -/
def free (krnl : Krnl) (_vmaid rgid : ℤ) : Except Fault (ℤ × Krnl) :=
  if rgid < 0 ∨ rgid > pagingMaxSymtblSz then .ok (-1, krnl)
  else do
    -- The guard has just made sure that `get_symrg_byid` is not NULL.
    let r ← symIndex rgid
    let rgnode := krnl.mm.symrgtbl r
    if rgnode.rgStart = 0 ∧ rgnode.rgEnd = 0 then return (-1, krnl)
    else
      let mm := { krnl.mm with symrgtbl := Function.update krnl.mm.symrgtbl r ⟨0, 0⟩ }
      -- A region that is not enlisted is lost; the return value is dropped.
      let (_, mm) ← enlistVmFreergList mm rgnode
      return (0, { krnl with mm := mm })

/-- `libfree`. -/
def libfree (krnl : Krnl) (regIndex : BitVec 32) : Except Fault (ℤ × Krnl) := do
  let (val, krnl) ← free krnl 0 regIndex.toInt
  if val = -1 then return (-1, krnl) else return (0, krnl)

/-! ## Reading and writing -/

/-- `pte_get_entry`: the directories are split off and never followed. -/
def pteGetEntry (_krnl : Krnl) (_pgn : Addr) : BitVec 32 :=
  0

/-- `pg_getpage`: `*fpn`, or `none` for -1, and the kernel after the call. -/
def pgGetpage (krnl : Krnl) (pgn : BitVec 32) : Except Fault (Option (BitVec 32) × Krnl) :=
  let fpn := Pte.pagingFpn (pteGetEntry krnl (pgn.signExtend 64))
  if Pte.pagingPagePresent (pteGetEntry krnl (pgn.signExtend 64)) then .ok (some fpn, krnl)
  else
    match findVictim krnl.mm.fifoPgn with
    | .error e => .error e
    | .ok none => .ok (none, krnl)
    | .ok (some (_, fifoPgn)) =>
      match krnl.activeMswp.getFreefp with
      -- The victim is off the list by now.
      | none => .ok (none, { krnl with mm := { krnl.mm with fifoPgn := fifoPgn } })
      | some (_, activeMswp) =>
        let mm := { krnl.mm with fifoPgn := enlistPgn fifoPgn (pgn.signExtend 64) }
        .ok (some fpn, { mm := mm, activeMswp := activeMswp })

/-- What `pg_getval` and `pg_setval` do: they get the page and leave the byte
alone. -/
def pgAccess (krnl : Krnl) (addr : BitVec 32) : Except Fault (ℤ × Krnl) := do
  match ← pgGetpage krnl (Translation.pagingPgn addr) with
  | (none, krnl) => return (-1, krnl)
  | (some _, krnl) => return (0, krnl)

/-- `pg_getval`; `*data` is not written. -/
def pgGetval (krnl : Krnl) (addr : BitVec 32) : Except Fault (ℤ × Krnl) :=
  pgAccess krnl addr

/-- `pg_setval`. -/
def pgSetval (krnl : Krnl) (addr : BitVec 32) (_value : BitVec 8) : Except Fault (ℤ × Krnl) :=
  pgAccess krnl addr

/-- `__read`; `*data` is not written. -/
def read (krnl : Krnl) (_vmaid rgid : ℤ) (offset : Addr) : Except Fault (ℤ × Krnl) := do
  match getSymrgById rgid with
  | none => throw .nullDeref
  | some currg =>
    let r ← symIndex currg
    let addr := (krnl.mm.symrgtbl r).rgStart + offset
    let (_, krnl) ← pgGetval krnl (addr.setWidth 32)
    return (0, krnl)

/-- `libread`: the return value, `*destination` and the kernel after the call.
`data` is what the stack holds in the local of that name. -/
def libread (krnl : Krnl) (source : BitVec 32) (offset : Addr) (data : BitVec 8) :
    Except Fault (ℤ × BitVec 32 × Krnl) := do
  let (val, krnl) ← read krnl 0 source.toInt offset
  return (val, data.signExtend 32, krnl)

/-- `__write`. -/
def write (krnl : Krnl) (vmaid rgid : ℤ) (offset : Addr) (value : BitVec 8) :
    Except Fault (ℤ × Krnl) := do
  let curVma ← getVmaByNum krnl.mm vmaid
  match getSymrgById rgid, curVma with
  | some currg, some _ =>
    let r ← symIndex currg
    let addr := (krnl.mm.symrgtbl r).rgStart + offset
    let (_, krnl) ← pgSetval krnl (addr.setWidth 32) value
    return (0, krnl)
  | _, _ => return (-1, krnl)

/-- `libwrite`. -/
def libwrite (krnl : Krnl) (data : BitVec 8) (destination : BitVec 32) (offset : Addr) :
    Except Fault (ℤ × Krnl) := do
  let (val, krnl) ← write krnl 0 destination.toInt offset data
  if val = -1 then return (-1, krnl) else return (val, krnl)

/-! ## Kernel memory

The bodies are not written yet. -/

/-- `libkmem_malloc`. -/
def libkmemMalloc (_krnl : Krnl) (_size _regIndex : BitVec 32) : ℤ :=
  0

/-- `libkmem_cache_pool_create`. -/
def libkmemCachePoolCreate (_krnl : Krnl) (_size _align _cachePoolId : BitVec 32) : ℤ :=
  0

/-- `libkmem_cache_alloc`; what `__kmem_cache_alloc` returns is dropped. -/
def libkmemCacheAlloc (_krnl : Krnl) (_cachePoolId _regIndex : BitVec 32) : ℤ :=
  0

/-- `libkmem_copy_from_user`. -/
def libkmemCopyFromUser (_krnl : Krnl) (_source _destination _offset _size : BitVec 32) : ℤ :=
  0

/-- `libkmem_copy_to_user`. -/
def libkmemCopyToUser (_krnl : Krnl) (_source _destination _offset _size : BitVec 32) : ℤ :=
  1

/-! ## What the calls do -/

section Calls

variable {krnl krnl' : Krnl} {reg : BitVec 32} {r : Fin pagingMaxSymtblSz} {offset : Addr}
  {data : BitVec 8} {val : ℤ}

/-- The address that an access to the register `r` gets its page for. -/
def accessAddr (mm : MmStruct) (r : Fin pagingMaxSymtblSz) (offset : Addr) : BitVec 32 :=
  ((mm.symrgtbl r).rgStart + offset).setWidth 32

/-! `liballoc` looks for an area first, and at the register last. -/

section Liballoc

variable {size : Addr}

theorem liballoc_error {e : Fault} (h : getVmaByNum krnl.mm 0 = .error e) :
    liballoc krnl size reg = .error e := by
  unfold liballoc alloc
  rw [h]
  rfl

theorem liballoc_null (h : getVmaByNum krnl.mm 0 = .ok none) :
    liballoc krnl size reg = .error .nullDeref := by
  unfold liballoc alloc getFreeVmrgArea
  rw [h]
  rfl

/-- A region from the free list goes to the register. -/
theorem liballoc_served {newrg : VmRg} {mm' : MmStruct} (hreg : reg.toNat = r)
    (h : getFreeVmrgArea krnl.mm 0 (size.setWidth 32) = .ok (some newrg, mm')) :
    liballoc krnl size reg = .ok (0, { krnl with mm := { mm' with
      symrgtbl := Function.update mm'.symrgtbl r newrg } }) := by
  obtain ⟨curVma, hcur, -⟩ := bind_eq_ok.mp h
  unfold liballoc alloc
  rw [toInt_of_toNat hreg, hcur, h]
  simp only [ok_bind, symIndex_ok]
  rfl

variable {cur : VmaCursor} (hcur : getVmaByNum krnl.mm 0 = .ok (some cur))
include hcur

/-- Without a free region the register gets one that starts at `sbrk`, as far as an
`int` holds it. -/
theorem liballoc_notFound {mm' : MmStruct} (hreg : reg.toNat = r)
    (h : getFreeVmrgArea krnl.mm 0 (size.setWidth 32) = .ok (none, mm')) :
    liballoc krnl size reg = .ok (0, { krnl with mm := { mm' with
      symrgtbl := Function.update mm'.symrgtbl r
        ⟨(cur.vma.sbrk.setWidth 32).signExtend 64,
          (cur.vma.sbrk.setWidth 32).signExtend 64 + size⟩ } }) := by
  unfold liballoc alloc
  rw [toInt_of_toNat hreg, hcur, h]
  simp only [ok_bind, symIndex_ok]
  rfl

/-- An area is searched without a fault. -/
theorem getFreeVmrgArea_ok (size : BitVec 32) :
    ∃ rgnode mm', getFreeVmrgArea krnl.mm 0 size = .ok (rgnode, mm') := by
  unfold getFreeVmrgArea
  rw [hcur]
  simp only [ok_bind]
  split
  · exact ⟨_, _, rfl⟩
  · split
    · exact ⟨_, _, rfl⟩
    · exact ⟨_, _, rfl⟩

/-- The table has no other register. -/
theorem liballoc_outside (h : pagingMaxSymtblSz ≤ reg.toNat) :
    liballoc krnl size reg = .error .outOfBounds := by
  obtain ⟨rgnode, mm', harea⟩ := getFreeVmrgArea_ok hcur (size.setWidth 32)
  unfold liballoc alloc
  rw [hcur, harea]
  simp only [ok_bind, symIndex_outside h]
  cases rgnode <;> rfl

end Liballoc

/-- A call of `liballoc` that returns has found an area, and returns 0. -/
theorem liballoc_eq_ok {size : Addr} (h : liballoc krnl size reg = .ok (val, krnl')) :
    val = 0 ∧ reg.toNat < pagingMaxSymtblSz ∧ ∃ cur, getVmaByNum krnl.mm 0 = .ok (some cur) := by
  cases hvma : getVmaByNum krnl.mm 0 with
  | error e => cases (liballoc_error hvma).symm.trans h
  | ok curVma =>
    cases curVma with
    | none => cases (liballoc_null hvma).symm.trans h
    | some cur =>
      rcases Nat.lt_or_ge reg.toNat pagingMaxSymtblSz with hlt | hge
      · obtain ⟨r, hreg⟩ : ∃ r : Fin pagingMaxSymtblSz, reg.toNat = r := ⟨⟨_, hlt⟩, rfl⟩
        obtain ⟨rgnode, mm', harea⟩ := getFreeVmrgArea_ok hvma (size.setWidth 32)
        cases rgnode with
        | none =>
          cases (liballoc_notFound hvma hreg harea).symm.trans h
          exact ⟨rfl, hlt, cur, rfl⟩
        | some newrg =>
          cases (liballoc_served hreg harea).symm.trans h
          exact ⟨rfl, hlt, cur, rfl⟩
      · cases (liballoc_outside hvma hge).symm.trans h

/-- `liballoc` returns where there is an area, for a register in the table. -/
theorem liballoc_returns_iff (krnl : Krnl) (size : Addr) (reg : BitVec 32) :
    (∃ result, liballoc krnl size reg = .ok result) ↔
      (∃ vma ∈ krnl.mm.mmap, 0 ≤ vma.vmait) ∧ reg.toNat < pagingMaxSymtblSz := by
  constructor
  · rintro ⟨⟨val, krnl'⟩, h⟩
    obtain ⟨-, hlt, hcur⟩ := liballoc_eq_ok h
    exact ⟨exists_getVmaByNum_iff.mp hcur, hlt⟩
  · rintro ⟨hvma, hlt⟩
    obtain ⟨cur, hcur⟩ := getVmaByNum_ok hvma
    obtain ⟨r, hreg⟩ : ∃ r : Fin pagingMaxSymtblSz, reg.toNat = r := ⟨⟨_, hlt⟩, rfl⟩
    obtain ⟨rgnode, mm', harea⟩ := getFreeVmrgArea_ok hcur (size.setWidth 32)
    cases rgnode with
    | none => exact ⟨_, liballoc_notFound hcur hreg harea⟩
    | some newrg => exact ⟨_, liballoc_served hreg harea⟩

/-! `libfree` looks at the register first. -/

/-- An index above the table is refused by `libfree`. -/
theorem libfree_outside (h : pagingMaxSymtblSz < reg.toNat) :
    libfree krnl reg = .ok (-1, krnl) := by
  unfold libfree free
  rw [if_pos ((toInt_outside_iff reg).mpr h)]
  rfl

/-- The index behind the last entry is not. -/
theorem libfree_behind (h : reg.toNat = pagingMaxSymtblSz) :
    libfree krnl reg = .error .outOfBounds := by
  unfold libfree free
  rw [if_neg (not_refused_behind h), symIndex_outside h.ge]
  rfl

/-- A register that holds no region cannot be freed. -/
theorem libfree_empty (hreg : reg.toNat = r) (hempty : krnl.mm.symrgtbl r = ⟨0, 0⟩) :
    libfree krnl reg = .ok (-1, krnl) := by
  unfold libfree free
  rw [toInt_of_toNat hreg, if_neg (not_refused_of_fin r), symIndex_ok]
  simp only [ok_bind, hempty]
  rfl

/-- One that holds a region is emptied, and the region goes to the first free list,
which may refuse it. -/
theorem libfree_region (hreg : reg.toNat = r) (hrg : krnl.mm.symrgtbl r ≠ ⟨0, 0⟩) :
    libfree krnl reg =
      (enlistVmFreergList { krnl.mm with symrgtbl := Function.update krnl.mm.symrgtbl r ⟨0, 0⟩ }
        (krnl.mm.symrgtbl r)).map fun res => (0, { krnl with mm := res.2 }) := by
  have hnotzero : ¬ ((krnl.mm.symrgtbl r).rgStart = 0 ∧ (krnl.mm.symrgtbl r).rgEnd = 0) :=
    fun hzero => hrg (VmRg.ext hzero.1 hzero.2)
  unfold libfree free
  rw [toInt_of_toNat hreg, if_neg (not_refused_of_fin r), symIndex_ok]
  simp only [ok_bind]
  rw [if_neg hnotzero]
  cases enlistVmFreergList { krnl.mm with
    symrgtbl := Function.update krnl.mm.symrgtbl r ⟨0, 0⟩ } (krnl.mm.symrgtbl r) <;> rfl

/-- A call of `libfree` that returns is refused or has handed the region on. -/
theorem libfree_eq_ok (h : libfree krnl reg = .ok (val, krnl')) :
    krnl' = krnl ∨ ∃ r : Fin pagingMaxSymtblSz, reg.toNat = r ∧ ∃ val' mm,
      enlistVmFreergList { krnl.mm with symrgtbl := Function.update krnl.mm.symrgtbl r ⟨0, 0⟩ }
        (krnl.mm.symrgtbl r) = .ok (val', mm) ∧ krnl' = { krnl with mm := mm } := by
  rcases Nat.lt_trichotomy reg.toNat pagingMaxSymtblSz with hlt | heq | hgt
  · obtain ⟨r, hreg⟩ : ∃ r : Fin pagingMaxSymtblSz, reg.toNat = r := ⟨⟨_, hlt⟩, rfl⟩
    rcases eq_or_ne (krnl.mm.symrgtbl r) ⟨0, 0⟩ with hempty | hrg
    · cases (libfree_empty hreg hempty).symm.trans h
      exact .inl rfl
    · rw [libfree_region hreg hrg] at h
      obtain ⟨⟨val', mm⟩, henlist, heq⟩ := map_eq_ok.mp h
      cases heq
      exact .inr ⟨r, hreg, val', mm, henlist, rfl⟩
  · cases (libfree_behind heq).symm.trans h
  · cases (libfree_outside hgt).symm.trans h
    exact .inl rfl

/-- `libfree` returns for any register but the one behind the table, if there is an
area to hand a region on to. -/
theorem libfree_returns_iff (krnl : Krnl) (reg : BitVec 32) :
    (∃ result, libfree krnl reg = .ok result) ↔
      pagingMaxSymtblSz < reg.toNat ∨ ∃ r : Fin pagingMaxSymtblSz, reg.toNat = r ∧
        (krnl.mm.symrgtbl r = ⟨0, 0⟩ ∨ krnl.mm.mmap ≠ []) := by
  rcases Nat.lt_trichotomy reg.toNat pagingMaxSymtblSz with hlt | heq | hgt
  · obtain ⟨r, hreg⟩ : ∃ r : Fin pagingMaxSymtblSz, reg.toNat = r := ⟨⟨_, hlt⟩, rfl⟩
    rcases eq_or_ne (krnl.mm.symrgtbl r) ⟨0, 0⟩ with hempty | hrg
    · exact iff_of_true ⟨_, libfree_empty hreg hempty⟩ (.inr ⟨r, hreg, .inl hempty⟩)
    · rw [libfree_region hreg hrg]
      unfold enlistVmFreergList
      cases hmmap : krnl.mm.mmap with
      | nil =>
        refine iff_of_false (fun ⟨_, h⟩ => by cases h) ?_
        rintro (hgt | ⟨r', hreg', hempty | hne⟩)
        · exact absurd hgt hlt.not_gt
        · cases Fin.ext (hreg.symm.trans hreg')
          exact hrg hempty
        · exact hne rfl
      | cons vma after =>
        refine iff_of_true ?_ (.inr ⟨r, hreg, .inr (List.cons_ne_nil _ _)⟩)
        simp only [hmmap]
        split <;> exact ⟨_, rfl⟩
  · rw [libfree_behind heq]
    refine iff_of_false (fun ⟨_, h⟩ => by cases h) ?_
    rintro (hgt | ⟨r, hr, -⟩)
    · exact absurd hgt heq.not_gt
    · exact absurd (hr ▸ r.isLt) heq.not_lt
  · exact iff_of_true ⟨_, libfree_outside hgt⟩ (.inl hgt)

theorem libread_inTable (hreg : reg.toNat = r) :
    libread krnl reg offset data =
      (pgAccess krnl (accessAddr krnl.mm r offset)).map fun res =>
        (0, data.signExtend 32, res.2) := by
  unfold libread Libmem.read
  rw [toInt_of_toNat hreg, getSymrgById_of_fin]
  simp only [symIndex_ok, ok_bind, pgGetval]
  unfold accessAddr
  cases pgAccess krnl (((krnl.mm.symrgtbl r).rgStart + offset).setWidth 32) <;> rfl

/-- No other register can be read. -/
theorem libread_outside (h : pagingMaxSymtblSz ≤ reg.toNat) :
    ∃ e, libread krnl reg offset data = .error e := by
  unfold libread Libmem.read
  rcases Nat.lt_or_eq_of_le h with hgt | heq
  · rw [getSymrgById_eq_none ((toInt_outside_iff reg).mpr hgt)]
    exact ⟨_, rfl⟩
  · rw [getSymrgById_eq_some (not_refused_behind heq.symm)]
    dsimp only
    rw [symIndex_outside heq.le]
    exact ⟨_, rfl⟩

/-- A call of `libread` that returns. -/
theorem libread_eq_ok_iff {destination : BitVec 32} :
    libread krnl reg offset data = .ok (val, destination, krnl') ↔
      val = 0 ∧ destination = data.signExtend 32 ∧ ∃ r : Fin pagingMaxSymtblSz, reg.toNat = r ∧
        ∃ val', pgAccess krnl (accessAddr krnl.mm r offset) = .ok (val', krnl') := by
  rcases Nat.lt_or_ge reg.toNat pagingMaxSymtblSz with hlt | hge
  · obtain ⟨r, hreg⟩ : ∃ r : Fin pagingMaxSymtblSz, reg.toNat = r := ⟨⟨_, hlt⟩, rfl⟩
    rw [libread_inTable hreg, map_eq_ok]
    constructor
    · rintro ⟨⟨val', krnl''⟩, hpage, heq⟩
      cases heq
      exact ⟨rfl, rfl, r, hreg, val', hpage⟩
    · rintro ⟨rfl, rfl, r', hreg', val', hpage⟩
      cases Fin.ext (hreg.symm.trans hreg')
      exact ⟨_, hpage, rfl⟩
  · obtain ⟨e, he⟩ := @libread_outside krnl reg offset data hge
    rw [he]
    refine iff_of_false (fun h => by cases h) ?_
    rintro ⟨-, -, r, hreg, -⟩
    exact absurd r.isLt (Nat.not_lt.mpr (hreg ▸ hge))

/-! `libwrite` looks for the first area before it looks at the register. -/

theorem libwrite_error {e : Fault} (h : getVmaByNum krnl.mm 0 = .error e) :
    libwrite krnl data reg offset = .error e := by
  unfold libwrite write
  rw [h]
  rfl

theorem libwrite_null (h : getVmaByNum krnl.mm 0 = .ok none) :
    libwrite krnl data reg offset = .ok (-1, krnl) := by
  unfold libwrite write
  rw [h]
  cases getSymrgById reg.toInt <;> rfl

section Area

variable {cur : VmaCursor} (hcur : getVmaByNum krnl.mm 0 = .ok (some cur))
include hcur

theorem libwrite_inTable (hreg : reg.toNat = r) :
    libwrite krnl data reg offset =
      (pgAccess krnl (accessAddr krnl.mm r offset)).map fun res => (0, res.2) := by
  unfold libwrite write
  rw [toInt_of_toNat hreg, getSymrgById_of_fin, hcur]
  simp only [symIndex_ok, ok_bind, pgSetval]
  unfold accessAddr
  cases pgAccess krnl (((krnl.mm.symrgtbl r).rgStart + offset).setWidth 32) <;> rfl

theorem libwrite_outside (h : pagingMaxSymtblSz < reg.toNat) :
    libwrite krnl data reg offset = .ok (-1, krnl) := by
  unfold libwrite write
  rw [getSymrgById_eq_none ((toInt_outside_iff reg).mpr h), hcur]
  rfl

theorem libwrite_behind (h : reg.toNat = pagingMaxSymtblSz) :
    libwrite krnl data reg offset = .error .outOfBounds := by
  unfold libwrite write
  rw [getSymrgById_eq_some (not_refused_behind h), hcur]
  simp only [ok_bind]
  rw [symIndex_outside h.ge]
  rfl

end Area

/-- A call of `libwrite` that returns is refused or has got a page. -/
theorem libwrite_eq_ok (h : libwrite krnl data reg offset = .ok (val, krnl')) :
    (val = -1 ∧ krnl' = krnl ∧
      (getVmaByNum krnl.mm 0 = .ok none ∨ pagingMaxSymtblSz < reg.toNat)) ∨
    (val = 0 ∧ ∃ r : Fin pagingMaxSymtblSz, reg.toNat = r ∧
      ∃ val', pgAccess krnl (accessAddr krnl.mm r offset) = .ok (val', krnl')) := by
  cases hvma : getVmaByNum krnl.mm 0 with
  | error e => cases (libwrite_error hvma).symm.trans h
  | ok curVma =>
    cases curVma with
    | none =>
      cases (libwrite_null hvma).symm.trans h
      exact .inl ⟨rfl, rfl, .inl rfl⟩
    | some cur =>
      rcases Nat.lt_trichotomy reg.toNat pagingMaxSymtblSz with hlt | heq | hgt
      · obtain ⟨r, hreg⟩ : ∃ r : Fin pagingMaxSymtblSz, reg.toNat = r := ⟨⟨_, hlt⟩, rfl⟩
        rw [libwrite_inTable hvma hreg] at h
        obtain ⟨⟨val', krnl''⟩, hpage, heq⟩ := map_eq_ok.mp h
        cases heq
        exact .inr ⟨rfl, r, hreg, val', hpage⟩
      · cases (libwrite_behind hvma heq).symm.trans h
      · cases (libwrite_outside hvma hgt).symm.trans h
        exact .inl ⟨rfl, rfl, .inr hgt⟩

end Calls

/-! ## Getting a page -/

/-- No entry is ever present: each call is a page fault. -/
theorem pgGetpage_eq (krnl : Krnl) (pgn : BitVec 32) :
    pgGetpage krnl pgn =
      match findVictim krnl.mm.fifoPgn with
      | .error e => .error e
      | .ok none => .ok (none, krnl)
      | .ok (some (_, fifoPgn)) =>
        match krnl.activeMswp.getFreefp with
        | none => .ok (none, { krnl with mm := { krnl.mm with fifoPgn := fifoPgn } })
        | some (_, activeMswp) =>
          let mm := { krnl.mm with fifoPgn := enlistPgn fifoPgn (pgn.signExtend 64) }
          .ok (some (Pte.pagingFpn 0), { mm := mm, activeMswp := activeMswp }) := by
  unfold pgGetpage pteGetEntry
  rw [Pte.pagingPagePresent_zero]
  rfl

/-- `pg_getpage` succeeds exactly if there is a victim with a predecessor and a
free swap frame. -/
theorem pgGetpage_eq_some_iff (krnl : Krnl) (pgn : BitVec 32) :
    (∃ fpn krnl', pgGetpage krnl pgn = .ok (some fpn, krnl')) ↔
      2 ≤ krnl.mm.fifoPgn.length ∧ krnl.activeMswp.freeFpList ≠ [] := by
  rw [pgGetpage_eq, two_le_length_iff, Ne, ← Memphy.getFreefp_eq_none_iff]
  constructor
  · rintro ⟨fpn, krnl', h⟩
    cases hvictim : findVictim krnl.mm.fifoPgn with
    | error e => rw [hvictim] at h; cases h
    | ok victim =>
      rw [hvictim] at h
      cases victim with
      | none => cases h
      | some victim =>
        refine ⟨⟨victim.1, victim.2, rfl⟩, fun hfree => ?_⟩
        rw [hfree] at h
        cases h
  · rintro ⟨⟨v, rest, hvictim⟩, hfree⟩
    obtain ⟨frame, hframe⟩ := Option.ne_none_iff_exists'.mp hfree
    rw [hvictim, hframe]
    exact ⟨_, _, rfl⟩

end Libmem

end SimpleOs
