import SimpleOs.Common
import SimpleOs.Lib.BitField

/-!
# Address translation

The 64-bit build splits a 57-bit virtual address into five page-directory
indices of nine bits each, over pages of 4 KiB (`mm64.h`). `pg_getval` and
`pg_setval` take the page number of an address from the older layout of `mm.h`
instead, with pages of 256 bytes on a 22-bit bus, and pass it through an `int`.

Results:
1. `getPdFromAddress_eq_iff`: the five indices are the bits 12 to 56 of the
   address, no more and no less.
2. `accessDirs_eq_iff`: for which addresses an access looks up the indices of
   its own address, and which two accesses look up the same ones.
-/

namespace SimpleOs

namespace Translation

open BitField

/-! ## The five-level split -/

/-- The page-directory indices of an address. -/
structure PageDirs where
  pgd : Addr
  p4d : Addr
  pud : Addr
  pmd : Addr
  pt : Addr
  deriving DecidableEq, Repr

/-- `PAGING64_ADDR_PT_SHIFT`. -/
def paging64AddrPtShift : ℕ := 12

/-- `get_pd_from_address`. -/
def getPdFromAddress (addr : Addr) : PageDirs where
  pgd := getval addr (genmask 64 56 48) 48
  p4d := getval addr (genmask 64 47 39) 39
  pud := getval addr (genmask 64 38 30) 30
  pmd := getval addr (genmask 64 29 21) 21
  pt := getval addr (genmask 64 20 12) 12

/-- `get_pd_from_pagenum`. -/
def getPdFromPagenum (pgn : Addr) : PageDirs :=
  getPdFromAddress (pgn <<< paging64AddrPtShift)

/-! ## The page number of an access -/

/-- `NBITS2(n)`. -/
def nbits2 (n : BitVec 32) : ℕ :=
  if n &&& 2 != 0 then 1 else 0

/-- `NBITS4(n)`. -/
def nbits4 (n : BitVec 32) : ℕ :=
  if n &&& 0xC != 0 then 2 + nbits2 (n >>> 2) else nbits2 n

/-- `NBITS8(n)`. -/
def nbits8 (n : BitVec 32) : ℕ :=
  if n &&& 0xF0 != 0 then 4 + nbits4 (n >>> 4) else nbits4 n

/-- `NBITS16(n)`. -/
def nbits16 (n : BitVec 32) : ℕ :=
  if n &&& 0xFF00 != 0 then 8 + nbits8 (n >>> 8) else nbits8 n

/-- `NBITS32(n)`. -/
def nbits32 (n : BitVec 32) : ℕ :=
  if n &&& 0xFFFF0000 != 0 then 16 + nbits16 (n >>> 16) else nbits16 n

/-- `NBITS(n)`. -/
def nbits (n : BitVec 32) : ℕ :=
  if n = 0 then 0 else nbits32 n

/-- `PAGING_ADDR_PGN_LOBIT`, from `PAGING_PAGESZ`. -/
def pagingAddrPgnLobit : ℕ := nbits 256

/-- `PAGING_ADDR_PGN_HIBIT`, from `PAGING_CPU_BUS_WIDTH`. -/
def pagingAddrPgnHibit : ℕ := 22 - 1

/-- `PAGING_PGN(x)`. -/
def pagingPgn (x : BitVec 32) : BitVec 32 :=
  getval x (genmask 32 pagingAddrPgnHibit pagingAddrPgnLobit) pagingAddrPgnLobit

/-- The indices that an access at `rg_start + offset` looks up: the address
becomes the `int` argument of `pg_getval` or `pg_setval`, its page number the
`addr_t` argument of `pte_get_entry`. -/
def accessDirs (rgStart offset : Addr) : PageDirs :=
  let addr : BitVec 32 := (rgStart + offset).setWidth 32
  getPdFromPagenum ((pagingPgn addr).signExtend 64)

/-! ## The indices and the bits of the address -/

/-- The five indices of an address are its bits 12 to 56. -/
theorem getPdFromAddress_eq_iff (a b : Addr) :
    getPdFromAddress a = getPdFromAddress b ↔
      ∀ i, 12 ≤ i → i ≤ 56 → a.getLsbD i = b.getLsbD i := by
  simp only [getPdFromAddress, PageDirs.mk.injEq, getval_eq_iff (by decide : 56 < 64),
    getval_eq_iff (by decide : 47 < 64), getval_eq_iff (by decide : 38 < 64),
    getval_eq_iff (by decide : 29 < 64), getval_eq_iff (by decide : 20 < 64)]
  constructor
  · rintro ⟨hpgd, hp4d, hpud, hpmd, hpt⟩ i hl hh
    rcases Nat.lt_or_ge i 21 with h21 | h21
    · exact hpt i hl (Nat.le_of_lt_succ h21)
    rcases Nat.lt_or_ge i 30 with h30 | h30
    · exact hpmd i h21 (Nat.le_of_lt_succ h30)
    rcases Nat.lt_or_ge i 39 with h39 | h39
    · exact hpud i h30 (Nat.le_of_lt_succ h39)
    rcases Nat.lt_or_ge i 48 with h48 | h48
    · exact hp4d i h39 (Nat.le_of_lt_succ h48)
    · exact hpgd i h48 hh
  · intro hbits
    refine ⟨?_, ?_, ?_, ?_, ?_⟩ <;>
      exact fun i hl hh => hbits i (le_trans (by decide) hl) (le_trans hh (by decide))

/-- The page number of an access: bits 8 to 21 of the address. -/
theorem getLsbD_pagingPgn (x : BitVec 32) (i : ℕ) :
    (pagingPgn x).getLsbD i = (x.getLsbD (8 + i) && decide (i ≤ 13)) := by
  have hlobit : pagingAddrPgnLobit = 8 := by decide
  unfold pagingPgn
  rw [hlobit, pagingAddrPgnHibit, getLsbD_getval (by decide)]
  congr 1
  exact decide_eq_decide.mpr (by omega)

/-- The address whose indices an access looks up: the bits 8 to 21 of its own
address, moved to 12 to 25. -/
theorem accessDirs_bits (rgStart offset : Addr) {j : ℕ} (hj : j + 12 ≤ 56) :
    (((pagingPgn ((rgStart + offset).setWidth 32)).signExtend 64) <<<
      paging64AddrPtShift).getLsbD (j + 12) =
      (decide (j < 14) && ((rgStart + offset).toNat / 2 ^ 8).testBit j) := by
  have hsign : (pagingPgn ((rgStart + offset).setWidth 32)).msb = false := by
    rw [BitVec.msb_eq_getLsbD_last, getLsbD_pagingPgn]
    simp
  have hword : j + 12 < 64 := Nat.lt_of_le_of_lt hj (by decide)
  rw [paging64AddrPtShift, BitVec.getLsbD_shiftLeft,
    BitVec.signExtend_eq_setWidth_of_msb_false hsign, BitVec.getLsbD_setWidth,
    getLsbD_pagingPgn, BitVec.getLsbD_setWidth, Nat.testBit_div_two_pow, BitVec.testBit_toNat,
    Nat.add_sub_cancel, Nat.add_comm 8 j]
  rcases Nat.lt_or_ge j 14 with hlow | hhigh
  · have hnarrow : j + 8 < 32 := (Nat.add_lt_add_right hlow 8).trans (by decide)
    have hpage : j < 64 := hlow.trans (by decide)
    simp [hword, hnarrow, hpage, hlow, Nat.le_of_lt_succ hlow]
  · simp [Nat.not_lt_of_le hhigh, Nat.not_le_of_lt hhigh]

/-! ## Where the two translations agree -/

/-- The bits of a 4 KiB page number repeat the bits of the 256-byte page number
exactly if the latter is its own shift by four places. -/
theorem div_eq_mod_iff (n : ℕ) : n / 2 ^ 4 = n % 2 ^ 14 ↔
    ∀ j, n.testBit (j + 4) = (decide (j < 14) && n.testBit j) := by
  have hdiv : ∀ j, (n / 2 ^ 4).testBit j = n.testBit (j + 4) := Nat.testBit_div_two_pow n
  constructor
  · intro h j
    rw [← hdiv j, h, Nat.testBit_mod_two_pow]
  · intro h
    refine Nat.eq_of_testBit_eq fun j => ?_
    rw [hdiv j, h j, Nat.testBit_mod_two_pow]

/-- Eighteen bits that repeat a pattern of four. -/
theorem div_eq_mod_iff_pattern (n : ℕ) :
    n / 2 ^ 4 = n % 2 ^ 14 ↔ ∃ p < 16, n = p * 0x11111 % 2 ^ 18 := by
  constructor
  · intro h
    refine ⟨n % 16, Nat.mod_lt _ (by decide), ?_⟩
    omega
  · have hpattern : ∀ p < 16, p * 0x11111 % 2 ^ 18 / 2 ^ 4 = p * 0x11111 % 2 ^ 18 % 2 ^ 14 := by
      decide
    rintro ⟨p, hp, rfl⟩
    exact hpattern p hp

/-- Which addresses an access looks up correctly, and which pairs of accesses it
confuses. Its own indices are looked up exactly if the bits 8 to 25 of the
address repeat one pattern of four bits and the bits above are zero. Two
accesses look up the same indices exactly if their addresses agree on the bits 8
to 21. -/
theorem accessDirs_eq_iff (rgStart offset rgStart' offset' : Addr)
    (h : (rgStart + offset).toNat < 2 ^ 57) :
    (accessDirs rgStart offset = getPdFromAddress (rgStart + offset) ↔
      ∃ p < 16, (rgStart + offset).toNat / 2 ^ 8 = p * 0x11111 % 2 ^ 18) ∧
    (accessDirs rgStart offset = accessDirs rgStart' offset' ↔
      (rgStart + offset).toNat / 2 ^ 8 % 2 ^ 14 = (rgStart' + offset').toNat / 2 ^ 8 % 2 ^ 14) := by
  constructor
  · rw [accessDirs, getPdFromPagenum, getPdFromAddress_eq_iff, ← div_eq_mod_iff_pattern,
      div_eq_mod_iff]
    have hbit : ∀ j, ((rgStart + offset).toNat / 2 ^ 8).testBit (j + 4) =
        (rgStart + offset).getLsbD (j + 12) := fun j =>
      Nat.testBit_div_two_pow _ (j + 4)
    constructor
    · intro hbits j
      rw [hbit j]
      rcases Nat.lt_or_ge 56 (j + 12) with hhigh | hj
      · -- Beyond the bits that the indices cover, the address has none.
        have hzero : (rgStart + offset).getLsbD (j + 12) = false :=
          Nat.testBit_lt_two_pow (h.trans_le (Nat.pow_le_pow_right (by decide) hhigh))
        have hj : 45 ≤ j := Nat.le_of_add_le_add_right (b := 12) hhigh
        rw [hzero, decide_eq_false (Nat.not_lt_of_le (le_trans (by decide) hj)), Bool.false_and]
      · rw [← hbits (j + 12) (Nat.le_add_left 12 j) hj]
        exact accessDirs_bits _ _ hj
    · intro hbits i hl hh
      obtain ⟨j, rfl⟩ := Nat.exists_eq_add_of_le' hl
      rw [accessDirs_bits _ _ hh, ← hbits j, hbit]
  · unfold accessDirs getPdFromPagenum
    rw [getPdFromAddress_eq_iff]
    constructor
    · intro hbits
      refine Nat.eq_of_testBit_eq fun j => ?_
      rw [Nat.testBit_mod_two_pow, Nat.testBit_mod_two_pow]
      rcases Nat.lt_or_ge j 14 with hlow | hhigh
      · have hj : j + 12 ≤ 56 := (Nat.add_le_add_right hlow.le 12).trans (by decide)
        have hbit := hbits (j + 12) (Nat.le_add_left 12 j) hj
        rwa [accessDirs_bits _ _ hj, accessDirs_bits _ _ hj] at hbit
      · rw [decide_eq_false (Nat.not_lt_of_le hhigh), Bool.false_and, Bool.false_and]
    · intro heq i hl hh
      obtain ⟨j, rfl⟩ := Nat.exists_eq_add_of_le' hl
      rw [accessDirs_bits _ _ hh, accessDirs_bits _ _ hh, ← Nat.testBit_mod_two_pow,
        ← Nat.testBit_mod_two_pow]
      exact congrArg (fun n => n.testBit j) heq

/-- An address that repeats the pattern 1, and one that shares its indices. -/
theorem accessDirs_pattern_one :
    accessDirs 0x1111000 0x100 = getPdFromAddress 0x1111100 ∧
    accessDirs 0x1111000 0x100 = accessDirs 0x1511000 0x100 := by
  have hiff := accessDirs_eq_iff 0x1111000 0x100 0x1511000 0x100 (by decide)
  exact ⟨hiff.1.mpr ⟨1, by decide, by decide⟩, hiff.2.mpr (by decide)⟩

/-- Address 256 is looked up under the indices of page 1, and the pages 0 and
2^10 under the same indices. -/
theorem accessDirs_wrong_page :
    accessDirs 0 256 ≠ getPdFromAddress 256 ∧
    (accessDirs 0 0 = accessDirs 0 (1 <<< 22) ∧
      getPdFromAddress 0 ≠ getPdFromAddress (1 <<< 22)) := by
  decide

end Translation

end SimpleOs
