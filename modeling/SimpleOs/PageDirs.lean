import SimpleOs.Translation

/-!
# The split of an address into page directories

The five page-directory indices of an address are fields of nine bits that lie
side by side on the bits 12 to 56. So the split is a positional system: the
indices are the digits to the base 512 of the page number, and pages and
quintuples of indices correspond one to one.

Results:
1. `ofDigits_indices`: the indices of an address are the digits of its page.
2. `getPdFromAddress_eq_iff_page`: two addresses have the same indices exactly if
   they lie in the same page.
3. `pageDirs_bijective`: the split and the page numbers, both ways.
-/

namespace SimpleOs

namespace Translation

open BitField

/-- The indices from the page table up. -/
def PageDirs.indices (dirs : PageDirs) : List ℕ :=
  [dirs.pt.toNat, dirs.pmd.toNat, dirs.pud.toNat, dirs.p4d.toNat, dirs.pgd.toNat]

/-- The number of the page that an address of 57 bits lies in. -/
def page (addr : Addr) : ℕ :=
  addr.toNat % 2 ^ 57 / 2 ^ 12

/-- Every index is below 512. -/
def PageDirs.Small (dirs : PageDirs) : Prop :=
  ∀ i ∈ dirs.indices, i < 512

theorem indices_injective : Function.Injective PageDirs.indices := by
  rintro ⟨pgd, p4d, pud, pmd, pt⟩ ⟨pgd', p4d', pud', pmd', pt'⟩ h
  unfold PageDirs.indices at h
  simp only [List.cons.injEq, and_true] at h
  obtain ⟨hpt, hpmd, hpud, hp4d, hpgd⟩ := h
  rw [BitVec.eq_of_toNat_eq hpt, BitVec.eq_of_toNat_eq hpmd, BitVec.eq_of_toNat_eq hpud,
    BitVec.eq_of_toNat_eq hp4d, BitVec.eq_of_toNat_eq hpgd]

/-! ## The indices of an address -/

/-- The masks and shifts of `mm64.h` are five adjacent fields of nine bits. -/
theorem indices_getPdFromAddress (addr : Addr) :
    (getPdFromAddress addr).indices = fields addr 12 9 5 := rfl

theorem small_getPdFromAddress (addr : Addr) : (getPdFromAddress addr).Small := by
  intro i hi
  rw [indices_getPdFromAddress] at hi
  exact lt_of_mem_fields (by decide) (by decide) hi

theorem page_eq (addr : Addr) : page addr = addr.toNat / 2 ^ 12 % 2 ^ 45 :=
  Nat.mod_mul_right_div_self addr.toNat (2 ^ 12) (2 ^ 45)

theorem ofDigits_indices (addr : Addr) :
    Nat.ofDigits 512 (getPdFromAddress addr).indices = page addr := by
  have hbase : (512 : ℕ) = 2 ^ 9 := by decide
  rw [hbase, indices_getPdFromAddress, ofDigits_fields (by decide) (by decide), page_eq,
    ← Nat.pow_mul]

/-- The split undone, with the offset in the page. -/
theorem sum_getPdFromAddress (addr : Addr) :
    (getPdFromAddress addr).pgd.toNat * 2 ^ 48 + (getPdFromAddress addr).p4d.toNat * 2 ^ 39 +
      (getPdFromAddress addr).pud.toNat * 2 ^ 30 + (getPdFromAddress addr).pmd.toNat * 2 ^ 21 +
      (getPdFromAddress addr).pt.toNat * 2 ^ 12 + addr.toNat % 2 ^ 12 = addr.toNat % 2 ^ 57 := by
  have hdigits := ofDigits_indices addr
  unfold PageDirs.indices at hdigits
  simp only [Nat.ofDigits_cons, Nat.ofDigits_nil] at hdigits
  have hcut : addr.toNat % 2 ^ 57 = addr.toNat % 2 ^ 12 + 2 ^ 12 * page addr := by
    have hpow : (2 : ℕ) ^ 57 = 2 ^ 12 * 2 ^ 45 := by decide
    rw [page_eq, hpow, Nat.mod_mul]
  rw [hcut, ← hdigits]
  ring

/-! ## Pages -/

theorem testBit_page (addr : Addr) (i : ℕ) :
    (page addr).testBit i = (decide (i < 45) && addr.getLsbD (i + 12)) := by
  rw [page_eq, Nat.testBit_mod_two_pow, Nat.testBit_div_two_pow, BitVec.testBit_toNat]

theorem getPdFromAddress_eq_iff_page (a b : Addr) :
    getPdFromAddress a = getPdFromAddress b ↔ page a = page b := by
  rw [getPdFromAddress_eq_iff]
  constructor
  · intro hbits
    refine Nat.eq_of_testBit_eq fun i => ?_
    rw [testBit_page, testBit_page]
    rcases Nat.lt_or_ge i 45 with hi | hi
    · rw [hbits (i + 12) (Nat.le_add_left 12 i) (by omega)]
    · rw [decide_eq_false (Nat.not_lt.mpr hi), Bool.false_and, Bool.false_and]
  · intro hpage i hl hh
    obtain ⟨j, rfl⟩ := Nat.exists_eq_add_of_le' hl
    have hbit := congrArg (fun p => p.testBit j) hpage
    have hj : j < 45 := by omega
    simpa only [testBit_page, hj, decide_true, Bool.true_and] using hbit

/-- The first address of a page lies in it. -/
theorem page_shiftLeft {pgn : Addr} (h : pgn.toNat < 2 ^ 45) :
    page (pgn <<< paging64AddrPtShift) = pgn.toNat := by
  unfold page paging64AddrPtShift
  rw [BitVec.toNat_shiftLeft, Nat.shiftLeft_eq]
  omega

theorem ofDigits_getPdFromPagenum {pgn : Addr} (h : pgn.toNat < 2 ^ 45) :
    Nat.ofDigits 512 (getPdFromPagenum pgn).indices = pgn.toNat := by
  unfold getPdFromPagenum
  rw [ofDigits_indices, page_shiftLeft h]

theorem getPdFromPagenum_eq {pgn addr : Addr} (h : pgn.toNat < 2 ^ 45)
    (hpage : page addr = pgn.toNat) : getPdFromPagenum pgn = getPdFromAddress addr := by
  unfold getPdFromPagenum
  rw [getPdFromAddress_eq_iff_page, page_shiftLeft h, hpage]

/-- Every quintuple of indices below 512 belongs to exactly one page. -/
theorem bijOn_getPdFromPagenum :
    Set.BijOn getPdFromPagenum {pgn | pgn.toNat < 2 ^ 45} {dirs | dirs.Small} := by
  refine ⟨fun pgn _ => small_getPdFromAddress _, ?_, ?_⟩
  · intro pgn hpgn pgn' hpgn' heq
    apply BitVec.eq_of_toNat_eq
    rw [← ofDigits_getPdFromPagenum hpgn, heq, ofDigits_getPdFromPagenum hpgn']
  · intro dirs hsmall
    have hlt : Nat.ofDigits 512 dirs.indices < 512 ^ 5 :=
      Nat.ofDigits_lt_base_pow_length (by decide) hsmall
    let pgn : Addr := BitVec.ofNat 64 (Nat.ofDigits 512 dirs.indices)
    have hpgn : pgn.toNat = Nat.ofDigits 512 dirs.indices := by
      rw [BitVec.toNat_ofNat]
      exact Nat.mod_eq_of_lt (hlt.trans (by decide))
    have hpage : pgn.toNat < 2 ^ 45 := hpgn ▸ hlt
    refine ⟨pgn, hpage, indices_injective ?_⟩
    refine Nat.ofDigits_inj_of_len_eq (by decide) rfl (small_getPdFromAddress _) hsmall ?_
    exact (ofDigits_getPdFromPagenum hpage).trans hpgn

/-- The five indices of an address are below 512 and make up its bits 12 to 56,
so two addresses have the same indices exactly if they agree on these bits. The
indices of a page number are its digits to the base 512 and those of every
address in the page, and each quintuple of indices is that of one page. -/
theorem pageDirs_bijective (a b : Addr) {pgn : Addr} (h : pgn.toNat < 2 ^ 45) :
    ((getPdFromAddress a).Small ∧
      (getPdFromAddress a).pgd.toNat * 2 ^ 48 + (getPdFromAddress a).p4d.toNat * 2 ^ 39 +
        (getPdFromAddress a).pud.toNat * 2 ^ 30 + (getPdFromAddress a).pmd.toNat * 2 ^ 21 +
        (getPdFromAddress a).pt.toNat * 2 ^ 12 + a.toNat % 2 ^ 12 = a.toNat % 2 ^ 57) ∧
    (getPdFromAddress a = getPdFromAddress b ↔
      ∀ i, 12 ≤ i → i ≤ 56 → a.getLsbD i = b.getLsbD i) ∧
    ((getPdFromPagenum pgn).Small ∧
      Nat.ofDigits 512 (getPdFromPagenum pgn).indices = pgn.toNat ∧
      ∀ addr, page addr = pgn.toNat → getPdFromPagenum pgn = getPdFromAddress addr) ∧
    Set.BijOn getPdFromPagenum {pgn | pgn.toNat < 2 ^ 45} {dirs | dirs.Small} :=
  ⟨⟨small_getPdFromAddress a, sum_getPdFromAddress a⟩, getPdFromAddress_eq_iff a b,
    ⟨small_getPdFromAddress _, ofDigits_getPdFromPagenum h, fun _ => getPdFromPagenum_eq h⟩,
    bijOn_getPdFromPagenum⟩

/-- The last page: all its indices are 511. -/
theorem pageDirs_bijective_lastPage :
    Nat.ofDigits 512 (getPdFromPagenum 0x1FFFFFFFFFFF).indices = 0x1FFFFFFFFFFF ∧
      getPdFromPagenum 0x1FFFFFFFFFFF = getPdFromAddress 0x1FFFFFFFFFFFABC := by
  have hpgn : (0x1FFFFFFFFFFF : Addr).toNat < 2 ^ 45 := by decide
  obtain ⟨-, -, ⟨-, hdigits, hpage⟩, -⟩ := pageDirs_bijective 0 0 hpgn
  exact ⟨hdigits, hpage 0x1FFFFFFFFFFFABC (by decide)⟩

end Translation

end SimpleOs
