import SimpleOs.Lib.BitField

/-!
# Page-table entries of the single-level table

The 32-bit build of `mm.c` keeps one entry for each of the `PAGING_MAX_PGN`
pages of a process. Bit 31 says that the entry is in use and bit 30 that the
page is swapped out; the frame number of an online page and the type and offset
of a swapped page share the low bits.

Results:
1. `present_pteSetFpn`, `present_pteSetSwap`: both writers raise the present bit.
2. `pagingFpn_pteSetFpn`, `pagingSwp_pteSetSwap`: the reader of each kind of
   entry gets the number its writer stored.
-/

namespace SimpleOs

namespace Pte

open BitField

/-- `BIT(nr)`. -/
def bit (nr : ℕ) : BitVec 32 :=
  1#32 <<< nr

/-- `DIV_ROUND_UP(n,d)`. -/
def divRoundUp (n d : ℕ) : ℕ :=
  (n + d - 1) / d

def pagingCpuBusWidth : ℕ := 22

def pagingPagesz : ℕ := 256

/-- `PAGING_MAX_PGN`, the number of entries. -/
def pagingMaxPgn : ℕ :=
  divRoundUp (bit pagingCpuBusWidth).toNat pagingPagesz

def pagingPtePresentMask : BitVec 32 := bit 31

def pagingPteSwappedMask : BitVec 32 := bit 30

def pagingPteFpnMask : BitVec 32 := genmask 32 12 0

def pagingPteSwptypMask : BitVec 32 := genmask 32 4 0

def pagingPteSwpoffMask : BitVec 32 := genmask 32 25 5

/-- `PAGING_PAGE_PRESENT(pte)` as a condition. -/
def pagingPagePresent (pte : BitVec 32) : Bool :=
  pte &&& pagingPtePresentMask != 0

/-- `PAGING_FPN(pte)`. -/
def pagingFpn (pte : BitVec 32) : BitVec 32 :=
  getval pte pagingPteFpnMask 0

/-- `PAGING_SWP(pte)`; the shift is `PAGING_SWPFPN_OFFSET`. -/
def pagingSwp (pte : BitVec 32) : BitVec 32 :=
  (pte &&& pagingPteSwpoffMask) >>> 5

/-- `pte_set_swap` on the entry `pte`. -/
def pteSetSwap (pte swptyp swpoff : BitVec 32) : BitVec 32 :=
  let pte := setbit pte pagingPtePresentMask
  let pte := setbit pte pagingPteSwappedMask
  let pte := setval pte swptyp pagingPteSwptypMask 0
  setval pte swpoff pagingPteSwpoffMask 5

/-- `pte_set_fpn` on the entry `pte`. -/
def pteSetFpn (pte fpn : BitVec 32) : BitVec 32 :=
  let pte := setbit pte pagingPtePresentMask
  let pte := clrbit pte pagingPteSwappedMask
  setval pte fpn pagingPteFpnMask 0

theorem pagingMaxPgn_eq : pagingMaxPgn = 16384 := by decide

theorem pagingPagePresent_eq (pte : BitVec 32) : pagingPagePresent pte = pte.getLsbD 31 := by
  have hmask : pagingPtePresentMask = BitVec.twoPow 32 31 := by decide
  unfold pagingPagePresent
  rw [hmask, BitVec.and_twoPow]
  cases pte.getLsbD 31 <;> decide

theorem pagingPagePresent_zero : pagingPagePresent 0 = false := by decide

theorem present_pteSetFpn (pte fpn : BitVec 32) : pagingPagePresent (pteSetFpn pte fpn) = true := by
  rw [pagingPagePresent_eq, pteSetFpn, pagingPteFpnMask,
    getLsbD_setval_of_not (by decide) (by decide) (by decide), getLsbD_clrbit (by decide),
    getLsbD_setbit]
  have hpresent : pagingPtePresentMask.getLsbD 31 = true := by decide
  have hswapped : pagingPteSwappedMask.getLsbD 31 = false := by decide
  rw [hpresent, hswapped, Bool.or_true]
  rfl

theorem present_pteSetSwap (pte swptyp swpoff : BitVec 32) :
    pagingPagePresent (pteSetSwap pte swptyp swpoff) = true := by
  rw [pagingPagePresent_eq, pteSetSwap, pagingPteSwpoffMask, pagingPteSwptypMask,
    getLsbD_setval_of_not (by decide) (by decide) (by decide),
    getLsbD_setval_of_not (by decide) (by decide) (by decide), getLsbD_setbit, getLsbD_setbit]
  have hpresent : pagingPtePresentMask.getLsbD 31 = true := by decide
  rw [hpresent, Bool.or_true, Bool.true_or]

/-- An online page reads back its frame. -/
theorem pagingFpn_pteSetFpn (pte : BitVec 32) {fpn : BitVec 32} (h : fpn.toNat < 2 ^ 13) :
    pagingFpn (pteSetFpn pte fpn) = fpn :=
  getval_setval (by decide) h

/-- A swapped page reads back its offset. -/
theorem pagingSwp_pteSetSwap (pte swptyp : BitVec 32) {swpoff : BitVec 32}
    (h : swpoff.toNat < 2 ^ 21) : pagingSwp (pteSetSwap pte swptyp swpoff) = swpoff :=
  getval_setval (by decide) h

end Pte

end SimpleOs
