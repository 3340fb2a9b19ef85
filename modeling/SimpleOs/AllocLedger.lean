import SimpleOs.AllocSize

/-!
# Where the bytes of the regions come from

A request that no free region has room for gets the first bytes of the area, from
`sbrk` on, and `inc_vma_limit` does not move `sbrk` behind them. The next request of
this kind gets the same bytes again. All other calls move bytes between the symbol
table and the free list, except that an allocation drops what its register held.

Results:
1. `runAll_balances`: after any calls a byte is in as many regions as requests got it
   at the break, less the regions dropped with it.
2. `regionsDisjoint_iff_extended`: if no byte was dropped, the regions are disjoint
   exactly if at most one request with a byte got to the break.
-/

namespace SimpleOs

namespace Libmem

open Cover MmStruct

/-- What the allocator got at the break and what it dropped. -/
structure Ledger where
  /-- The sizes that no free region had room for. -/
  extended : List Addr
  /-- The regions that allocations found in their registers. -/
  overwritten : List VmRg
  deriving DecidableEq

/-- What the call `call` adds to the ledger. -/
def Call.entry (mm : MmStruct) (call : Call) : Ledger :=
  match call with
  | .liballoc size regIndex =>
    { extended := if servingRg mm size = none then [size] else []
      overwritten :=
        match symIndex regIndex.toInt with
        | .ok r => [mm.symrgtbl r]
        | .error _ => [] }
  | .libfree _ => ⟨[], []⟩

/-- The calls one after the other, with their ledger. -/
def runAll (krnl : Krnl) : List Call → Except Fault (Krnl × Ledger)
  | [] => .ok (krnl, ⟨[], []⟩)
  | call :: calls => do
    let (_, krnl') ← call.run krnl
    let (krnl'', rest) ← runAll krnl' calls
    let entry := call.entry krnl.mm
    return (krnl'', ⟨entry.extended ++ rest.extended, entry.overwritten ++ rest.overwritten⟩)

/-- The bytes of a region that was made at the break. -/
def atBreak (size : Addr) : Set ℕ :=
  Set.Iio size.toNat

/-- The region ends before the 2^31st byte. -/
def Low (rg : VmRg) : Prop :=
  rg.rgStart ≤ rg.rgEnd ∧ rg.rgEnd.toNat < 2 ^ 31

/-- The map has the one area of `init_mm`, with any free regions below 2^31. -/
structure OneArea (mm : MmStruct) : Prop where
  area : ∃ freergs, mm.mmap = [{ vma0 with vmFreergList := freergs }] ∧ ∀ rg ∈ freergs, Low rg
  table : ∀ r, Low (mm.symrgtbl r)

/-! ## One call -/

theorem low_empty : Low ⟨0, 0⟩ :=
  ⟨by decide, by decide⟩

theorem Fresh.oneArea {krnl : Krnl} (h : Fresh krnl) : OneArea krnl.mm where
  area := ⟨[⟨0, 0⟩], h.mmap, fun _ hmem => List.mem_singleton.mp hmem ▸ low_empty⟩
  table r := h.symrgtbl r ▸ low_empty

/-- The first area has the id 0, whatever its free list is. -/
theorem getVmaByNum_oneArea {mm : MmStruct} {freergs : List VmRg}
    (hmmap : mm.mmap = [{ vma0 with vmFreergList := freergs }]) :
    getVmaByNum mm 0 = .ok (some ⟨[], { vma0 with vmFreergList := freergs }, []⟩) := by
  have hid : (0 : ℤ) ≤ VmArea.vmait { vma0 with vmFreergList := freergs } := by
    show (0 : ℤ) ≤ vma0.vmait
    decide
  exact getVmaByNum_front hmmap hid

/-- A low region with room for a low size does not wrap. -/
theorem Low.no_wrap {rg : VmRg} {size : Addr} (h : Low rg) (hsize : size.toNat < 2 ^ 31) :
    rg.rgStart.toNat + size.toNat < 2 ^ 64 := by
  have hle := BitVec.le_def.mp h.1
  have hlt := h.2
  omega

theorem Low.start_ne {rg : VmRg} (h : Low rg) : rg.rgStart ≠ -1 := by
  intro htop
  have hle := BitVec.le_def.mp h.1
  have hlt := h.2
  rw [htop] at hle
  have htoNat : (-1 : Addr).toNat = 2 ^ 64 - 1 := rfl
  omega

/-- The region that is taken from a low one, and what is left, are low. -/
theorem Low.cut {rg : VmRg} {size : Addr} (h : Low rg) (hsize : size.toNat < 2 ^ 31)
    (hroom : HasRoom size rg) :
    Low ⟨rg.rgStart, rg.rgStart + size⟩ ∧ Low ⟨rg.rgStart + size, rg.rgEnd⟩ := by
  have hend := BitVec.le_def.mp hroom
  have hsum : (rg.rgStart + size).toNat = rg.rgStart.toNat + size.toNat := by
    rw [BitVec.toNat_add, Nat.mod_eq_of_lt (h.no_wrap hsize)]
  refine ⟨⟨?_, hend.trans_lt h.2⟩, hroom, h.2⟩
  rw [BitVec.le_def, hsum]
  exact Nat.le_add_right _ _

theorem low_leftover {rg : VmRg} {size : Addr} {back : List VmRg} (h : Low rg)
    (hsize : size.toNat < 2 ^ 31) (hroom : HasRoom size rg) (hback : ∀ rg' ∈ back, Low rg') :
    ∀ rg' ∈ leftover size rg back, Low rg' := by
  unfold leftover
  split
  · exact List.forall_mem_cons.mpr ⟨(h.cut hsize hroom).2, hback⟩
  · cases back with
    | nil => exact List.forall_mem_singleton.mpr ⟨BitVec.le_refl _, h.2⟩
    | cons nextrg rest => exact hback

theorem low_takeFreerg {size : Addr} {rgs freergs : List VmRg} {newrg : VmRg}
    (hlow : ∀ rg ∈ rgs, Low rg) (hsize : size.toNat < 2 ^ 31)
    (htake : takeFreerg size rgs = some (newrg, freergs)) :
    Low newrg ∧ ∀ rg ∈ freergs, Low rg := by
  obtain ⟨front, rg, back, rfl, -, hroom, rfl, rfl⟩ := takeFreerg_eq_some htake
  have hrg : Low rg := hlow rg (List.mem_append_right _ List.mem_cons_self)
  refine ⟨(hrg.cut hsize hroom).1, fun rg' hmem => ?_⟩
  rcases List.mem_append.mp hmem with hmem | hmem
  · exact hlow rg' (List.mem_append_left _ hmem)
  · refine low_leftover hrg hsize hroom (fun rg' hback => ?_) rg' hmem
    exact hlow rg' (List.mem_append_right _ (List.mem_cons_of_mem _ hback))

theorem OneArea.put {krnl : Krnl} (h : OneArea krnl.mm) {r : Fin pagingMaxSymtblSz} {rg : VmRg}
    {freergs : List VmRg} (hrg : Low rg) (hfree : ∀ rg' ∈ freergs, Low rg') :
    OneArea { krnl.mm with
      mmap := [{ vma0 with vmFreergList := freergs }]
      symrgtbl := Function.update krnl.mm.symrgtbl r rg } where
  area := ⟨freergs, rfl, hfree⟩
  table r' := by
    show Low (Function.update krnl.mm.symrgtbl r rg r')
    rcases eq_or_ne r' r with rfl | hne
    · rw [Function.update_self]
      exact hrg
    · rw [Function.update_of_ne hne]
      exact h.table r'

/-- The call returns, the map stays as it should be, and the bytes that it covers more
than before are those of its ledger. -/
def Balances (krnl : Krnl) (call : Call) : Prop :=
  ∃ val krnl', call.run krnl = .ok (val, krnl') ∧ OneArea krnl'.mm ∧
    ∀ b, coverage krnl'.mm b + mult ((call.entry krnl.mm).overwritten.map VmRg.bytes) b =
      coverage krnl.mm b + mult ((call.entry krnl.mm).extended.map atBreak) b

/-- The region that serves a low request. -/
theorem servingRg_oneArea {krnl : Krnl} {freergs : List VmRg} {size : Addr}
    (hmmap : krnl.mm.mmap = [{ vma0 with vmFreergList := freergs }])
    (hsize : size.toNat < 2 ^ 31) :
    servingRg krnl.mm size = freergs.find? fun rg => HasRoom size rg := by
  rw [servingRg_eq (getVmaByNum_oneArea hmmap), intSize, signExtend_setWidth hsize]

theorem servingRg_eq_none_iff {krnl : Krnl} {freergs : List VmRg} {size : Addr}
    (hmmap : krnl.mm.mmap = [{ vma0 with vmFreergList := freergs }])
    (hsize : size.toNat < 2 ^ 31) :
    servingRg krnl.mm size = none ↔ takeFreerg size freergs = none := by
  rw [servingRg_oneArea hmmap hsize, takeFreerg_eq_none_iff, List.find?_eq_none]
  simp

theorem balances_liballoc {krnl : Krnl} (h : OneArea krnl.mm) {size : Addr}
    {regIndex : BitVec 32} {r : Fin pagingMaxSymtblSz} (hsize : size.toNat < 2 ^ 31)
    (hreg : regIndex.toNat = r) : Balances krnl (.liballoc size regIndex) := by
  obtain ⟨freergs, hmmap, hlow⟩ := h.area
  have hcur := getVmaByNum_oneArea hmmap
  have hentry : symIndex regIndex.toInt = .ok r := by rw [toInt_of_toNat hreg, symIndex_ok]
  have htake_int : takeFreerg ((size.setWidth 32).signExtend 64) freergs =
      takeFreerg size freergs :=
    congrArg (takeFreerg · freergs) (signExtend_setWidth hsize)
  unfold Balances
  simp only [Call.entry, hentry, List.map_cons, List.map_nil]
  cases htake : takeFreerg size freergs with
  | none =>
    -- The region is made at the break, which is 0.
    have harea := getFreeVmrgArea_eq_none hcur (htake_int.trans htake)
    have hcall := liballoc_notFound hcur hreg harea
    have hstart : (vma0.sbrk.setWidth 32).signExtend 64 = 0 := rfl
    rw [hstart, zero_add] at hcall
    obtain ⟨others, hold, hnew⟩ := symrgtbl_perm krnl.mm r ⟨0, size⟩
    refine ⟨0, _, hcall, ?_, fun b => ?_⟩
    · have hput : OneArea { krnl.mm with
          mmap := [{ vma0 with vmFreergList := freergs }]
          symrgtbl := Function.update krnl.mm.symrgtbl r ⟨0, size⟩ } :=
        h.put ⟨BitVec.le_def.mpr (Nat.zero_le _), hsize⟩ hlow
      rwa [← hmmap] at hput
    · have hbytes : VmRg.bytes ⟨0, size⟩ = atBreak size := by
        ext b
        simp [VmRg.bytes, atBreak]
      rw [if_pos ((servingRg_eq_none_iff hmmap hsize).mpr htake), hold, hnew, hbytes,
        List.map_singleton]
      omega
  | some taken =>
    obtain ⟨newrg, rest⟩ := taken
    obtain ⟨hnewrg, hrest⟩ := low_takeFreerg hlow hsize htake
    have harea := getFreeVmrgArea_eq_some hcur (htake_int.trans htake) hnewrg.start_ne
    have hcall := liballoc_served hreg harea
    have hsome : servingRg krnl.mm size ≠ none := by
      rw [Ne, servingRg_eq_none_iff hmmap hsize, htake]
      exact Option.some_ne_none _
    have hwrap : ∀ rg, servingRg krnl.mm size = some rg →
        rg.rgStart.toNat + size.toNat < 2 ^ 64 := by
      intro rg hrg
      rw [servingRg_oneArea hmmap hsize] at hrg
      exact (hlow rg (List.mem_of_find?_eq_some hrg)).no_wrap hsize
    refine ⟨0, _, hcall, h.put hnewrg hrest, fun b => ?_⟩
    rw [if_neg hsome, List.map_nil, mult_nil, Nat.add_zero]
    exact (coverage_liballoc hsize hreg ⟨_, _, harea⟩ hwrap hcall b).symm

theorem balances_libfree {krnl : Krnl} (h : OneArea krnl.mm) {regIndex : BitVec 32}
    {r : Fin pagingMaxSymtblSz} (hreg : regIndex.toNat = r) :
    Balances krnl (.libfree regIndex) := by
  obtain ⟨freergs, hmmap, hlow⟩ := h.area
  have hbalance : ∀ val krnl', libfree krnl regIndex = .ok (val, krnl') → OneArea krnl'.mm →
      Balances krnl (.libfree regIndex) := fun val krnl' hcall harea =>
    ⟨val, krnl', hcall, harea, fun b => (coverage_libfree hcall b).symm⟩
  rcases eq_or_ne (krnl.mm.symrgtbl r) ⟨0, 0⟩ with hempty | hrg
  · exact hbalance _ _ (libfree_empty hreg hempty) h
  · have hcall := libfree_region hreg hrg
    unfold enlistVmFreergList at hcall
    simp only [hmmap] at hcall
    split at hcall
    · exact hbalance _ _ hcall (h.put low_empty hlow)
    · exact hbalance _ _ hcall (h.put low_empty (List.forall_mem_cons.mpr ⟨h.table r, hlow⟩))

/-! ## Runs -/

theorem balances {krnl : Krnl} (h : OneArea krnl.mm) {call : Call} (hv : call.Valid) :
    Balances krnl call := by
  cases call with
  | liballoc size regIndex => exact balances_liballoc (r := ⟨_, hv.2⟩) h hv.1 rfl
  | libfree regIndex => exact balances_libfree (r := ⟨_, hv⟩) h rfl

theorem runAll_of_oneArea {calls : List Call} (hv : ∀ call ∈ calls, call.Valid) {krnl : Krnl}
    (h : OneArea krnl.mm) :
    ∃ krnl' ledger, runAll krnl calls = .ok (krnl', ledger) ∧
      ∀ b, coverage krnl'.mm b + mult (ledger.overwritten.map VmRg.bytes) b =
        coverage krnl.mm b + mult (ledger.extended.map atBreak) b := by
  induction calls generalizing krnl with
  | nil => exact ⟨krnl, ⟨[], []⟩, rfl, fun _ => rfl⟩
  | cons call calls ih =>
    obtain ⟨hcall, hcalls⟩ := List.forall_mem_cons.mp hv
    obtain ⟨val, krnl', hrun, harea, hone⟩ := balances h hcall
    obtain ⟨krnl'', rest, hall, hrest⟩ := ih hcalls harea
    refine ⟨krnl'', ⟨(call.entry krnl.mm).extended ++ rest.extended,
      (call.entry krnl.mm).overwritten ++ rest.overwritten⟩, ?_, fun b => ?_⟩
    · rw [runAll, hrun]
      simp only [ok_bind]
      rw [hall]
      rfl
    · have hone := hone b
      have hrest := hrest b
      simp only [List.map_append, mult_append]
      omega

/-- Regions without a byte cover nothing. -/
theorem mult_eq_zero {rgs : List VmRg} (h : ∀ rg ∈ rgs, rg.rgStart ≥ rg.rgEnd) (b : ℕ) :
    mult (rgs.map VmRg.bytes) b = 0 := by
  refine Nat.eq_zero_of_not_pos fun hpos => ?_
  obtain ⟨bytes, hmem, hb⟩ := mem_union_iff.mpr hpos
  obtain ⟨rg, hrg, rfl⟩ := List.mem_map.mp hmem
  rw [bytes_eq_empty (h rg hrg)] at hb
  exact hb

theorem coverage_fresh {krnl : Krnl} (h : Fresh krnl) (b : ℕ) : coverage krnl.mm b = 0 := by
  refine mult_eq_zero (fun rg hrg => ?_) b
  have hempty : rg = ⟨0, 0⟩ := by
    rcases List.mem_append.mp hrg with hrg | hrg
    · obtain ⟨r, -, rfl⟩ := List.mem_map.mp hrg
      exact h.symrgtbl r
    · rw [h.mmap] at hrg
      exact List.mem_singleton.mp hrg
  rw [hempty]
  exact BitVec.le_refl _

theorem mult_atBreak (sizes : List Addr) (b : ℕ) :
    mult (sizes.map atBreak) b = sizes.countP fun size => b < size.toNat := by
  induction sizes with
  | nil => rfl
  | cons size sizes ih =>
    rw [List.map_cons, mult_cons, ih, List.countP_cons, Nat.add_comm]
    by_cases hb : b < size.toNat
    · rw [mult_singleton_of_mem (show b ∈ atBreak size from hb), if_pos (by simpa using hb)]
    · rw [mult_singleton_of_not_mem (show b ∉ atBreak size from hb), if_neg (by simpa using hb)]

/-- Any calls on a fresh map return. After them a byte is in as many regions as requests
got it at the break, less the regions that were dropped with it. -/
theorem runAll_balances {calls : List Call} (hv : ∀ call ∈ calls, call.Valid) {krnl : Krnl}
    (h : Fresh krnl) :
    ∃ krnl' ledger, runAll krnl calls = .ok (krnl', ledger) ∧
      ∀ b, coverage krnl'.mm b + mult (ledger.overwritten.map VmRg.bytes) b =
        ledger.extended.countP fun size => b < size.toNat := by
  obtain ⟨krnl', ledger, hrun, hbalance⟩ := runAll_of_oneArea hv h.oneArea
  refine ⟨krnl', ledger, hrun, fun b => ?_⟩
  rw [hbalance b, coverage_fresh h, Nat.zero_add, mult_atBreak]

/-- Register 0 gets 100 bytes at the break, gives them back, gets them from the free
list, and loses them to 60 bytes at the break. -/
theorem runAll_balances_dropped :
    ∃ krnl' ledger,
      runAll bareKrnl [.liballoc 100 0, .libfree 0, .liballoc 100 0, .liballoc 60 0] =
        .ok (krnl', ledger) ∧
      ∀ b, coverage krnl'.mm b + mult (ledger.overwritten.map VmRg.bytes) b =
        ledger.extended.countP fun size => b < size.toNat :=
  runAll_balances (by decide) fresh_bareKrnl

/-- While allocations find their registers without a byte, the regions stay disjoint
exactly as long as no second request with a byte gets to the break. -/
theorem regionsDisjoint_iff_extended {calls : List Call} (hv : ∀ call ∈ calls, call.Valid)
    {krnl krnl' : Krnl} {ledger : Ledger} (h : Fresh krnl)
    (hrun : runAll krnl calls = .ok (krnl', ledger))
    (hkept : ∀ rg ∈ ledger.overwritten, rg.rgStart ≥ rg.rgEnd) :
    RegionsDisjoint krnl'.mm ↔ ledger.extended.countP (fun size => 0 < size.toNat) ≤ 1 := by
  obtain ⟨krnl'', ledger', hrun', hbalance⟩ := runAll_of_oneArea hv h.oneArea
  cases hrun.symm.trans hrun'
  have hcov : ∀ b, coverage krnl'.mm b = ledger.extended.countP fun size => b < size.toNat := by
    intro b
    have hbyte := hbalance b
    rw [mult_eq_zero hkept, coverage_fresh h, mult_atBreak, Nat.zero_add] at hbyte
    exact hbyte
  unfold RegionsDisjoint
  rw [pairwise_disjoint_iff]
  -- Every region made at the break holds its first byte.
  constructor
  · intro hone
    rw [← hcov 0]
    exact hone 0
  · intro hone b
    refine le_trans ((hcov b).le.trans ?_) hone
    refine List.countP_mono_left fun size _ hb => ?_
    rw [decide_eq_true_eq] at hb ⊢
    exact Nat.zero_lt_of_lt hb

/-- Register 0 gets 100 bytes at the break. Registers 1 and 2 get 90 of them when they
are free. -/
theorem regionsDisjoint_oneExtension : ∃ krnl' ledger,
    runAll bareKrnl [.liballoc 100 0, .libfree 0, .liballoc 60 1, .liballoc 30 2] =
      .ok (krnl', ledger) ∧ RegionsDisjoint krnl'.mm := by
  obtain ⟨krnl', hrun⟩ : ∃ krnl',
      runAll bareKrnl [.liballoc 100 0, .libfree 0, .liballoc 60 1, .liballoc 30 2] =
        .ok (krnl', ⟨[100], [⟨0, 0⟩, ⟨0, 0⟩, ⟨0, 0⟩]⟩) := ⟨_, rfl⟩
  exact ⟨krnl', _, hrun,
    (regionsDisjoint_iff_extended (by decide) fresh_bareKrnl hrun (by decide)).mpr (by decide)⟩

end Libmem

end SimpleOs
