import SimpleOs.Common
import SimpleOs.PteHistory

/-!
# Making a page-table entry

`init_pte` of `mm64.c` writes a 64-bit word with masks of 32 bits, so what it
makes of the lower half is an entry as in `mm.c`. It has an argument for each
field. The dirty bit is cleared whatever its argument says, and for a page that is
not present nothing is written at all.

Results:
1. `setWidth_initPte`: the lower half of the word is a 32-bit entry.
2. `encodes_iff`: which arguments and which old words the entry reads back.
-/

namespace SimpleOs

namespace Pte

open BitField

/-- The arguments of `init_pte` besides the entry. -/
structure InitArgs where
  pre : BitVec 32
  fpn : Addr
  drt : BitVec 32
  swp : BitVec 32
  swptyp : BitVec 32
  swpoff : Addr

/-- The frame is not 0, and the fields fit their ranges of bits. -/
structure InitArgs.Valid (a : InitArgs) : Prop where
  fpn_pos : 0 < a.fpn.toNat
  fpn_lt : a.fpn.toNat < 2 ^ 13
  swptyp_lt : a.swptyp.toNat < 2 ^ 5
  swpoff_lt : a.swpoff.toNat < 2 ^ 21

/-- `PAGING_PTE_DIRTY_MASK`. -/
def pagingPteDirtyMask : BitVec 32 := bit 28

/-- `SETBIT` on a 64-bit word. -/
def setbit64 (v : BitVec 64) (mask : BitVec 32) : BitVec 64 :=
  v ||| mask.setWidth 64

/-- `CLRBIT` on a 64-bit word: `~mask` has 32 bits and is extended by zeros. -/
def clrbit64 (v : BitVec 64) (mask : BitVec 32) : BitVec 64 :=
  v &&& (~~~mask).setWidth 64

/-- `SETVAL` on a 64-bit word with a value that is an `int`: the field is put
together in 32 bits. -/
def setvalInt (v : BitVec 64) (value mask : BitVec 32) (offst : ℕ) : BitVec 64 :=
  (v &&& (~~~mask).setWidth 64) ||| ((value <<< offst) &&& mask).setWidth 64

/-- `init_pte`: the return value and `*pte` after the call. -/
def initPte (pte : BitVec 64) (a : InitArgs) : ℤ × BitVec 64 :=
  if a.pre ≠ 0 then
    if a.swp = 0 then
      if a.fpn = 0 then (-1, pte)
      else
        let pte := setbit64 pte pagingPtePresentMask
        let pte := clrbit64 pte pagingPteSwappedMask
        let pte := clrbit64 pte pagingPteDirtyMask
        (0, setval64 pte a.fpn pagingPteFpnMask 0)
    else
      let pte := setbit64 pte pagingPtePresentMask
      let pte := setbit64 pte pagingPteSwappedMask
      let pte := clrbit64 pte pagingPteDirtyMask
      let pte := setvalInt pte a.swptyp pagingPteSwptypMask 0
      (0, setval64 pte a.swpoff pagingPteSwpoffMask 5)
  else (0, pte)

/-! ## Reading a 64-bit word -/

/-- The bits of `mask` in a 64-bit word, as a condition. -/
def flag64 (pte : BitVec 64) (mask : BitVec 32) : Bool :=
  pte &&& mask.setWidth 64 != 0

/-- `GETVAL` on a 64-bit word. -/
def getval64 (v : BitVec 64) (mask : BitVec 32) (offst : ℕ) : BitVec 64 :=
  (v &&& mask.setWidth 64) >>> offst

/-- `PAGING_PAGE_PRESENT(pte)` of a 64-bit word. -/
def present64 (pte : BitVec 64) : Bool :=
  flag64 pte pagingPtePresentMask

/-- `PAGING_PTE_SWAPPED_MASK` as a condition on a 64-bit word. -/
def swapped64 (pte : BitVec 64) : Bool :=
  flag64 pte pagingPteSwappedMask

/-- `PAGING_PTE_DIRTY_MASK` as a condition on a 64-bit word. -/
def dirty64 (pte : BitVec 64) : Bool :=
  flag64 pte pagingPteDirtyMask

/-- `PAGING_FPN(pte)` of a 64-bit word. -/
def fpn64 (pte : BitVec 64) : BitVec 64 :=
  getval64 pte pagingPteFpnMask 0

/-- The field `PAGING_PTE_SWPTYP` of a 64-bit word. -/
def swptyp64 (pte : BitVec 64) : BitVec 64 :=
  getval64 pte pagingPteSwptypMask 0

/-- `PAGING_SWP(pte)` of a 64-bit word. -/
def swpoff64 (pte : BitVec 64) : BitVec 64 :=
  getval64 pte pagingPteSwpoffMask 5

/-- A mask of 32 bits sees the lower half. -/
theorem and_setWidth (v : BitVec 64) (mask : BitVec 32) :
    v &&& mask.setWidth 64 = (v.setWidth 32 &&& mask).setWidth 64 := by
  refine BitVec.eq_of_getLsbD_eq fun i hi => ?_
  rw [BitVec.getLsbD_and, BitVec.getLsbD_setWidth, BitVec.getLsbD_setWidth, BitVec.getLsbD_and,
    BitVec.getLsbD_setWidth]
  rcases Nat.lt_or_ge i 32 with hlow | hhigh
  · simp [hi, hlow]
  · simp [BitVec.getLsbD_of_ge mask i hhigh]

/-- A mask of one bit asks for this bit. -/
theorem flag64_bit (pte : BitVec 64) {nr : ℕ} (h : nr < 32) :
    flag64 pte (bit nr) = (pte.setWidth 32).getLsbD nr := by
  have hmask : bit nr = BitVec.twoPow 32 nr := rfl
  have hne : (BitVec.twoPow 32 nr).setWidth 64 ≠ 0 := by
    intro hzero
    have hlsb := congrArg (fun v => v.getLsbD nr) hzero
    simp [BitVec.getLsbD_setWidth, h] at hlsb
    omega
  unfold flag64
  rw [and_setWidth, hmask, BitVec.and_twoPow]
  cases (pte.setWidth 32).getLsbD nr with
  | false => rfl
  | true => exact bne_iff_ne.mpr hne

/-- A field under a mask of 32 bits is a field of the lower half. -/
theorem toNat_getval64 (v : BitVec 64) (mask : BitVec 32) (offst : ℕ) :
    (getval64 v mask offst).toNat = (getval (v.setWidth 32) mask offst).toNat := by
  have hhalf : getval64 v mask offst = (getval (v.setWidth 32) mask offst).setWidth 64 := by
    unfold getval64 getval
    rw [and_setWidth, BitVec.setWidth_ushiftRight (by decide)]
  rw [hhalf, BitVec.toNat_setWidth_of_le (by decide)]

theorem toNat_setWidth_mod (v : BitVec 64) {k : ℕ} (hk : k ≤ 32) :
    (v.setWidth 32).toNat % 2 ^ k = v.toNat % 2 ^ k := by
  rw [BitVec.toNat_setWidth, Nat.mod_mod_of_dvd _ (Nat.pow_dvd_pow 2 hk)]

/-! ## The lower half of the word -/

theorem setWidth_mask (mask : BitVec 32) : (mask.setWidth 64).setWidth 32 = mask := by
  rw [BitVec.setWidth_setWidth_of_le _ (by decide), BitVec.setWidth_eq]

theorem setWidth_setbit64 (v : BitVec 64) (mask : BitVec 32) :
    (setbit64 v mask).setWidth 32 = setbit (v.setWidth 32) mask := by
  unfold setbit64 setbit
  rw [BitVec.setWidth_or, setWidth_mask]

theorem setWidth_clrbit64 (v : BitVec 64) (mask : BitVec 32) :
    (clrbit64 v mask).setWidth 32 = clrbit (v.setWidth 32) mask := by
  unfold clrbit64 clrbit
  rw [BitVec.setWidth_and, setWidth_mask]

theorem setWidth_setvalInt (v : BitVec 64) (value mask : BitVec 32) (offst : ℕ) :
    (setvalInt v value mask offst).setWidth 32 = setval (v.setWidth 32) value mask offst := by
  unfold setvalInt setval
  rw [BitVec.setWidth_or, BitVec.setWidth_and, setWidth_mask, setWidth_mask]

theorem setWidth_setval64 (v value : BitVec 64) (mask : BitVec 32) (offst : ℕ) :
    (setval64 v value mask offst).setWidth 32 =
      setval (v.setWidth 32) (value.setWidth 32) mask offst := by
  unfold setval64 setval
  rw [BitVec.setWidth_or, BitVec.setWidth_and, BitVec.setWidth_and, setWidth_mask, setWidth_mask,
    BitVec.setWidth_shiftLeft_of_le (by decide)]

/-- What `init_pte` makes of an entry for a page in RAM. -/
def onlineEntry (pte fpn : BitVec 32) : BitVec 32 :=
  let pte := setbit pte pagingPtePresentMask
  let pte := clrbit pte pagingPteSwappedMask
  let pte := clrbit pte pagingPteDirtyMask
  setval pte fpn pagingPteFpnMask 0

/-- What `init_pte` makes of an entry for a page that is swapped out. -/
def swappedEntry (pte swptyp swpoff : BitVec 32) : BitVec 32 :=
  let pte := setbit pte pagingPtePresentMask
  let pte := setbit pte pagingPteSwappedMask
  let pte := clrbit pte pagingPteDirtyMask
  let pte := setval pte swptyp pagingPteSwptypMask 0
  setval pte swpoff pagingPteSwpoffMask 5

/-- The call for a page in RAM. -/
theorem initPte_online (pte : BitVec 64) {a : InitArgs} (hpre : a.pre ≠ 0) (hswp : a.swp = 0)
    (hfpn : a.fpn ≠ 0) :
    initPte pte a =
      (0, setval64 (clrbit64 (clrbit64 (setbit64 pte pagingPtePresentMask) pagingPteSwappedMask)
        pagingPteDirtyMask) a.fpn pagingPteFpnMask 0) := by
  unfold initPte
  rw [if_pos hpre, if_pos hswp, if_neg hfpn]

/-- The word after a call, case by case. -/
theorem setWidth_initPte (pte : BitVec 64) (a : InitArgs) :
    (a.pre = 0 → initPte pte a = (0, pte)) ∧
    (a.pre ≠ 0 → a.swp = 0 → a.fpn ≠ 0 →
      (initPte pte a).1 = 0 ∧ (initPte pte a).2.setWidth 32 =
        onlineEntry (pte.setWidth 32) (a.fpn.setWidth 32)) ∧
    (a.pre ≠ 0 → a.swp ≠ 0 →
      (initPte pte a).1 = 0 ∧ (initPte pte a).2.setWidth 32 =
        swappedEntry (pte.setWidth 32) a.swptyp (a.swpoff.setWidth 32)) := by
  refine ⟨fun hpre => ?_, fun hpre hswp hfpn => ?_, fun hpre hswp => ?_⟩
  · unfold initPte
    rw [if_neg (not_not.mpr hpre)]
  · rw [initPte_online pte hpre hswp hfpn]
    refine ⟨rfl, ?_⟩
    rw [setWidth_setval64, setWidth_clrbit64, setWidth_clrbit64, setWidth_setbit64]
    rfl
  · unfold initPte
    rw [if_pos hpre, if_neg hswp]
    refine ⟨rfl, ?_⟩
    rw [setWidth_setval64, setWidth_setvalInt, setWidth_clrbit64, setWidth_setbit64,
      setWidth_setbit64]
    rfl

/-! ## The bits and fields of an entry -/

theorem getLsbD_bit (nr : ℕ) (h : nr < 32) (i : ℕ) : (bit nr).getLsbD i = decide (nr = i) := by
  have hbit : bit nr = BitVec.twoPow 32 nr := rfl
  rw [hbit, BitVec.getLsbD_twoPow, decide_eq_true h, Bool.true_and]

/-- The bits above the frame of a page in RAM. -/
theorem getLsbD_onlineEntry (pte fpn : BitVec 32) {i : ℕ} (hlow : 13 ≤ i) (hi : i < 32) :
    (onlineEntry pte fpn).getLsbD i =
      ((pte.getLsbD i || decide (31 = i)) && !decide (30 = i) && !decide (28 = i)) := by
  unfold onlineEntry pagingPteFpnMask pagingPtePresentMask pagingPteSwappedMask pagingPteDirtyMask
  rw [getLsbD_setval_of_not (by decide) hi (by omega), getLsbD_clrbit hi, getLsbD_clrbit hi,
    getLsbD_setbit, getLsbD_bit 31 (by decide), getLsbD_bit 30 (by decide),
    getLsbD_bit 28 (by decide)]

/-- The bits above the offset of a page that is swapped out. -/
theorem getLsbD_swappedEntry (pte swptyp swpoff : BitVec 32) {i : ℕ} (hlow : 26 ≤ i)
    (hi : i < 32) :
    (swappedEntry pte swptyp swpoff).getLsbD i =
      ((pte.getLsbD i || decide (31 = i) || decide (30 = i)) && !decide (28 = i)) := by
  unfold swappedEntry pagingPteSwpoffMask pagingPteSwptypMask pagingPtePresentMask
    pagingPteSwappedMask pagingPteDirtyMask
  rw [getLsbD_setval_of_not (by decide) hi (by omega),
    getLsbD_setval_of_not (by decide) hi (by omega), getLsbD_clrbit hi, getLsbD_setbit,
    getLsbD_setbit, getLsbD_bit 31 (by decide), getLsbD_bit 30 (by decide),
    getLsbD_bit 28 (by decide)]

/-- What a word reads as after `init_pte` made it the entry of a page in RAM. -/
theorem online_reads (pte : BitVec 64) {a : InitArgs} (hpre : a.pre ≠ 0) (hswp : a.swp = 0)
    (hfpn : a.fpn ≠ 0) :
    present64 (initPte pte a).2 = true ∧ swapped64 (initPte pte a).2 = false ∧
      dirty64 (initPte pte a).2 = false ∧
      (fpn64 (initPte pte a).2).toNat = a.fpn.toNat % 2 ^ 13 := by
  have hword := ((setWidth_initPte pte a).2.1 hpre hswp hfpn).2
  have hflag : ∀ nr, 13 ≤ nr → nr < 32 → flag64 (initPte pte a).2 (bit nr) =
      (((pte.setWidth 32).getLsbD nr || decide (31 = nr)) && !decide (30 = nr) &&
        !decide (28 = nr)) := by
    intro nr hlow hnr
    rw [flag64_bit _ hnr, hword, getLsbD_onlineEntry _ _ hlow hnr]
  refine ⟨?_, ?_, ?_, ?_⟩
  · exact (hflag 31 (by decide) (by decide)).trans (by simp)
  · exact (hflag 30 (by decide) (by decide)).trans (by simp)
  · exact (hflag 28 (by decide) (by decide)).trans (by simp)
  · rw [fpn64, toNat_getval64, hword, ← toNat_setWidth_mod a.fpn (by decide)]
    exact toNat_getval_setval (by decide)

/-- What a word reads as after `init_pte` made it the entry of a swapped page. -/
theorem swapped_reads (pte : BitVec 64) {a : InitArgs} (hpre : a.pre ≠ 0) (hswp : a.swp ≠ 0) :
    present64 (initPte pte a).2 = true ∧ swapped64 (initPte pte a).2 = true ∧
      dirty64 (initPte pte a).2 = false ∧
      (swptyp64 (initPte pte a).2).toNat = a.swptyp.toNat % 2 ^ 5 ∧
      (swpoff64 (initPte pte a).2).toNat = a.swpoff.toNat % 2 ^ 21 := by
  have hword := ((setWidth_initPte pte a).2.2 hpre hswp).2
  have hflag : ∀ nr, 26 ≤ nr → nr < 32 → flag64 (initPte pte a).2 (bit nr) =
      (((pte.setWidth 32).getLsbD nr || decide (31 = nr) || decide (30 = nr)) &&
        !decide (28 = nr)) := by
    intro nr hlow hnr
    rw [flag64_bit _ hnr, hword, getLsbD_swappedEntry _ _ _ hlow hnr]
  refine ⟨?_, ?_, ?_, ?_, ?_⟩
  · exact (hflag 31 (by decide) (by decide)).trans (by simp)
  · exact (hflag 30 (by decide) (by decide)).trans (by simp)
  · exact (hflag 28 (by decide) (by decide)).trans (by simp)
  · -- The offset is written after the type, to other bits.
    rw [swptyp64, toNat_getval64, hword, swappedEntry, pagingPteSwpoffMask, pagingPteSwptypMask,
      getval_setval_of_disjoint (by decide) (by decide) (by decide)]
    exact toNat_getval_setval (by decide)
  · rw [swpoff64, toNat_getval64, hword, ← toNat_setWidth_mod a.swpoff (by decide)]
    exact toNat_getval_setval (by decide)

/-! ## What the entry reads back -/

/-- The entry reads back every argument of the call. -/
structure Encodes (a : InitArgs) (pte : BitVec 64) : Prop where
  ret : (initPte pte a).1 = 0
  present : present64 (initPte pte a).2 = true ↔ a.pre ≠ 0
  swapped : a.pre ≠ 0 → (swapped64 (initPte pte a).2 = true ↔ a.swp ≠ 0)
  dirty : a.pre ≠ 0 → (dirty64 (initPte pte a).2 = true ↔ a.drt ≠ 0)
  fpn : a.pre ≠ 0 → a.swp = 0 → fpn64 (initPte pte a).2 = a.fpn
  swap : a.pre ≠ 0 → a.swp ≠ 0 →
    swptyp64 (initPte pte a).2 = a.swptyp.setWidth 64 ∧ swpoff64 (initPte pte a).2 = a.swpoff

/-- What is read back does not depend on what the word held before. -/
structure ContentFree (a : InitArgs) : Prop where
  present : ∀ pte pte', present64 (initPte pte a).2 = present64 (initPte pte' a).2
  flags : a.pre ≠ 0 → ∀ pte pte', swapped64 (initPte pte a).2 = swapped64 (initPte pte' a).2 ∧
    dirty64 (initPte pte a).2 = dirty64 (initPte pte' a).2
  fpn : a.pre ≠ 0 → a.swp = 0 → ∀ pte pte',
    fpn64 (initPte pte a).2 = fpn64 (initPte pte' a).2
  swap : a.pre ≠ 0 → a.swp ≠ 0 → ∀ pte pte',
    swptyp64 (initPte pte a).2 = swptyp64 (initPte pte' a).2 ∧
      swpoff64 (initPte pte a).2 = swpoff64 (initPte pte' a).2

theorem InitArgs.Valid.fpn_ne {a : InitArgs} (h : a.Valid) : a.fpn ≠ 0 := by
  intro hzero
  have hpos := h.fpn_pos
  rw [hzero] at hpos
  exact absurd hpos (by decide)

/-- The dirty bit is clear in an entry for a page that is present. -/
theorem dirty64_initPte {a : InitArgs} (h : a.Valid) (hpre : a.pre ≠ 0) (pte : BitVec 64) :
    dirty64 (initPte pte a).2 = false := by
  rcases eq_or_ne a.swp 0 with hswp | hswp
  · exact (online_reads pte hpre hswp h.fpn_ne).2.2.1
  · exact (swapped_reads pte hpre hswp).2.2.1

/-- For a page that is present the entry reads back all but the dirty bit. -/
theorem encodes_iff_of_present {a : InitArgs} (h : a.Valid) (hpre : a.pre ≠ 0)
    (pte : BitVec 64) : Encodes a pte ↔ a.drt = 0 := by
  have hdirty := dirty64_initPte h hpre pte
  constructor
  · intro henc
    by_contra hdrt
    rw [(henc.dirty hpre).mpr hdrt] at hdirty
    cases hdirty
  · intro hdrt
    have hclean : dirty64 (initPte pte a).2 = true ↔ a.drt ≠ 0 :=
      iff_of_false (by rw [hdirty]; decide) (not_not.mpr hdrt)
    rcases eq_or_ne a.swp 0 with hswp | hswp
    · obtain ⟨hpresent, hswapped, -, hfpn⟩ := online_reads pte hpre hswp h.fpn_ne
      refine ⟨((setWidth_initPte pte a).2.1 hpre hswp h.fpn_ne).1, iff_of_true hpresent hpre,
        fun _ => iff_of_false (by rw [hswapped]; decide) (not_not.mpr hswp), fun _ => hclean,
        fun _ _ => BitVec.eq_of_toNat_eq ?_, fun _ hne => absurd hswp hne⟩
      rw [hfpn, Nat.mod_eq_of_lt h.fpn_lt]
    · obtain ⟨hpresent, hswapped, -, hswptyp, hswpoff⟩ := swapped_reads pte hpre hswp
      refine ⟨((setWidth_initPte pte a).2.2 hpre hswp).1, iff_of_true hpresent hpre,
        fun _ => iff_of_true hswapped hswp, fun _ => hclean, fun _ heq => absurd heq hswp,
        fun _ _ => ⟨BitVec.eq_of_toNat_eq ?_, BitVec.eq_of_toNat_eq ?_⟩⟩
      · rw [hswptyp, BitVec.toNat_setWidth, Nat.mod_eq_of_lt h.swptyp_lt]
        exact (Nat.mod_eq_of_lt (h.swptyp_lt.trans (by decide))).symm
      · rw [hswpoff, Nat.mod_eq_of_lt h.swpoff_lt]

/-- For a page that is not present the word stays as it is. -/
theorem encodes_iff_of_absent {a : InitArgs} (hpre : a.pre = 0) (pte : BitVec 64) :
    Encodes a pte ↔ present64 pte = false := by
  have hword := (setWidth_initPte pte a).1 hpre
  constructor
  · intro henc
    have hpresent := henc.present
    rw [hword] at hpresent
    exact Bool.eq_false_iff.mpr fun hset => hpresent.mp hset hpre
  · intro hclear
    refine ⟨by rw [hword], ?_, fun hne => absurd hpre hne, fun hne => absurd hpre hne,
      fun hne => absurd hpre hne, fun hne => absurd hpre hne⟩
    rw [hword]
    exact iff_of_false (by rw [hclear]; decide) (not_not.mpr hpre)

theorem contentFree_iff {a : InitArgs} (h : a.Valid) : ContentFree a ↔ a.pre ≠ 0 := by
  constructor
  · intro hfree hpre
    have hbit := hfree.present 0 0x80000000
    rw [(setWidth_initPte 0 a).1 hpre, (setWidth_initPte 0x80000000 a).1 hpre] at hbit
    revert hbit
    decide
  · intro hpre
    rcases eq_or_ne a.swp 0 with hswp | hswp
    · have hreads := fun pte => online_reads pte hpre hswp h.fpn_ne
      refine ⟨fun pte pte' => ?_, fun _ pte pte' => ⟨?_, ?_⟩, fun _ _ pte pte' => ?_,
        fun _ hne => absurd hswp hne⟩
      · rw [(hreads pte).1, (hreads pte').1]
      · rw [(hreads pte).2.1, (hreads pte').2.1]
      · rw [(hreads pte).2.2.1, (hreads pte').2.2.1]
      · apply BitVec.eq_of_toNat_eq
        rw [(hreads pte).2.2.2, (hreads pte').2.2.2]
    · have hreads := fun pte => swapped_reads pte hpre hswp
      refine ⟨fun pte pte' => ?_, fun _ pte pte' => ⟨?_, ?_⟩, fun _ heq => absurd heq hswp,
        fun _ _ pte pte' => ⟨BitVec.eq_of_toNat_eq ?_, BitVec.eq_of_toNat_eq ?_⟩⟩
      · rw [(hreads pte).1, (hreads pte').1]
      · rw [(hreads pte).2.1, (hreads pte').2.1]
      · rw [(hreads pte).2.2.1, (hreads pte').2.2.1]
      · rw [(hreads pte).2.2.2.1, (hreads pte').2.2.2.1]
      · rw [(hreads pte).2.2.2.2, (hreads pte').2.2.2.2]

/-- The entry reads back its arguments exactly if the page is present and not
dirty, or if it is not present and was not before. It does not depend on the old
word exactly if the page is present. -/
theorem encodes_iff {a : InitArgs} (h : a.Valid) :
    (∀ pte, Encodes a pte ↔
      (a.pre ≠ 0 → a.drt = 0) ∧ (a.pre = 0 → present64 pte = false)) ∧
    (ContentFree a ↔ a.pre ≠ 0) := by
  refine ⟨fun pte => ?_, contentFree_iff h⟩
  rcases eq_or_ne a.pre 0 with hpre | hpre
  · rw [encodes_iff_of_absent hpre]
    exact ⟨fun hclear => ⟨fun hne => absurd hpre hne, fun _ => hclear⟩, fun hcond => hcond.2 hpre⟩
  · rw [encodes_iff_of_present h hpre]
    exact ⟨fun hdrt => ⟨fun _ => hdrt, fun hzero => absurd hzero hpre⟩, fun hcond => hcond.1 hpre⟩

/-- Frame 5, clean, over a word full of ones. -/
theorem encodes_cleanFrame : Encodes ⟨1, 5, 0, 0, 0, 0⟩ (BitVec.allOnes 64) :=
  ((encodes_iff ⟨by decide, by decide, by decide, by decide⟩).1 _).mpr
    ⟨fun _ => rfl, fun hzero => absurd hzero (by decide)⟩

/-- Frame 5, dirty: the bit is not set. A page that is not present any more: the
bit stays set. -/
theorem not_encodes_dirty :
    ((⟨1, 5, 1, 0, 0, 0⟩ : InitArgs).Valid ∧ ¬ Encodes ⟨1, 5, 1, 0, 0, 0⟩ 0) ∧
    ((⟨0, 5, 0, 0, 0, 0⟩ : InitArgs).Valid ∧ ¬ Encodes ⟨0, 5, 0, 0, 0, 0⟩ 0x80000000) := by
  refine ⟨⟨⟨by decide, by decide, by decide, by decide⟩, fun henc => ?_⟩,
    ⟨⟨by decide, by decide, by decide, by decide⟩, fun henc => ?_⟩⟩
  · exact absurd ((henc.dirty (by decide)).mpr (by decide)) (by decide)
  · exact absurd (henc.present.mp (by decide)) (by decide)

end Pte

end SimpleOs
