import SimpleOs.Teardown

/-!
# Histories of page-table updates

The frame field of an online page overlaps the type and the offset of a swapped
one, so an entry that goes back and forth between the two forms carries stale
bits of the form it does not have. `mm.c` updates a 32-bit entry of the array
`pgd`; `mm64.c` does the same updates on a 64-bit word with masks that are still
32 bits wide, so that each complement of a mask also clears the upper half.

Results:
1. `Update.decodes_word`: an entry reads back its update, from any word.
2. `foldl_word64`: on a word that fits 32 bits, `mm64.c` computes what `mm.c`
   does.
3. `foldl_apply_decodes`: a table reads back the last update of each page, after
   any history.
-/

namespace SimpleOs

namespace Pte

open BitField

/-- `PAGING_PTE_SWAPPED_MASK` as a condition. -/
def pagingPageSwapped (pte : BitVec 32) : Bool :=
  pte &&& pagingPteSwappedMask != 0

/-- The field `PAGING_PTE_SWPTYP` of an entry. -/
def pagingSwptyp (pte : BitVec 32) : BitVec 32 :=
  getval pte pagingPteSwptypMask 0

/-! ## The updates of `mm64.c` -/

/-- `SETVAL` on a 64-bit word: `~mask` has 32 bits and is extended by zeros. -/
def setval64 (v value : BitVec 64) (mask : BitVec 32) (offst : ℕ) : BitVec 64 :=
  (v &&& (~~~mask).setWidth 64) ||| ((value <<< offst) &&& mask.setWidth 64)

/-- `pte_set_swap` of `mm64.c` on the word `pte`. -/
def pteSetSwap64 (pte : BitVec 64) (swptyp : BitVec 32) (swpoff : BitVec 64) : BitVec 64 :=
  let pte := pte ||| pagingPtePresentMask.setWidth 64
  let pte := pte ||| pagingPteSwappedMask.setWidth 64
  -- `swptyp` is an `int`, so its field is put together in 32 bits.
  let pte := (pte &&& (~~~pagingPteSwptypMask).setWidth 64) |||
    ((swptyp <<< 0) &&& pagingPteSwptypMask).setWidth 64
  setval64 pte swpoff pagingPteSwpoffMask 5

/-- `pte_set_fpn` of `mm64.c` on the word `pte`. -/
def pteSetFpn64 (pte fpn : BitVec 64) : BitVec 64 :=
  let pte := pte ||| pagingPtePresentMask.setWidth 64
  let pte := pte &&& (~~~pagingPteSwappedMask).setWidth 64
  setval64 pte fpn pagingPteFpnMask 0

/-! ## One update of one word -/

/-- The update on the word of its page. -/
def Update.word : Update → BitVec 32 → BitVec 32
  | .setFpn _ fpn, pte => pteSetFpn pte fpn
  | .setSwap _ swptyp swpoff, pte => pteSetSwap pte swptyp swpoff

/-- The same update by `mm64.c`. -/
def Update.word64 : Update → BitVec 64 → BitVec 64
  | .setFpn _ fpn, pte => pteSetFpn64 pte (fpn.setWidth 64)
  | .setSwap _ swptyp swpoff, pte => pteSetSwap64 pte swptyp (swpoff.setWidth 64)

/-- The entry reads as the update says. -/
def Update.Decodes : Update → BitVec 32 → Prop
  | .setFpn _ fpn, pte =>
    pagingPagePresent pte = true ∧ pagingPageSwapped pte = false ∧ pagingFpn pte = fpn
  | .setSwap _ swptyp swpoff, pte =>
    pagingPageSwapped pte = true ∧ pagingSwp pte = swpoff ∧ pagingSwptyp pte = swptyp

theorem pagingPageSwapped_eq (pte : BitVec 32) : pagingPageSwapped pte = pte.getLsbD 30 := by
  have hmask : pagingPteSwappedMask = BitVec.twoPow 32 30 := by decide
  unfold pagingPageSwapped
  rw [hmask, BitVec.and_twoPow]
  cases pte.getLsbD 30 <;> decide

theorem swapped_pteSetFpn (pte fpn : BitVec 32) :
    pagingPageSwapped (pteSetFpn pte fpn) = false := by
  rw [pagingPageSwapped_eq, pteSetFpn, pagingPteFpnMask,
    getLsbD_setval_of_not (by decide) (by decide) (by decide), getLsbD_clrbit (by decide)]
  have hswapped : pagingPteSwappedMask.getLsbD 30 = true := by decide
  rw [hswapped]
  exact Bool.and_false _

theorem swapped_pteSetSwap (pte swptyp swpoff : BitVec 32) :
    pagingPageSwapped (pteSetSwap pte swptyp swpoff) = true := by
  rw [pagingPageSwapped_eq, pteSetSwap, pagingPteSwpoffMask, pagingPteSwptypMask,
    getLsbD_setval_of_not (by decide) (by decide) (by decide),
    getLsbD_setval_of_not (by decide) (by decide) (by decide), getLsbD_setbit]
  have hswapped : pagingPteSwappedMask.getLsbD 30 = true := by decide
  rw [hswapped]
  exact Bool.or_true _

/-- The offset is written after the type, but to other bits. -/
theorem pagingSwptyp_pteSetSwap (pte : BitVec 32) {swptyp : BitVec 32} (swpoff : BitVec 32)
    (h : swptyp.toNat < 2 ^ 5) : pagingSwptyp (pteSetSwap pte swptyp swpoff) = swptyp := by
  unfold pteSetSwap pagingSwptyp pagingPteSwpoffMask pagingPteSwptypMask
  rw [getval_setval_of_disjoint (by decide) (by decide) (by decide)]
  exact getval_setval (by decide) h

/-- An entry reads back its update, whatever it held before. -/
theorem Update.decodes_word {u : Update} (h : u.Valid) (pte : BitVec 32) :
    u.Decodes (u.word pte) := by
  cases u with
  | setFpn pgn fpn =>
    exact ⟨present_pteSetFpn pte fpn, swapped_pteSetFpn pte fpn, pagingFpn_pteSetFpn pte h.2⟩
  | setSwap pgn swptyp swpoff =>
    exact ⟨swapped_pteSetSwap pte swptyp swpoff, pagingSwp_pteSetSwap pte swptyp h.2.2,
      pagingSwptyp_pteSetSwap pte swpoff h.2.1⟩

/-- The bits 26 to 29 belong to no field of an update. -/
theorem Update.getLsbD_word (u : Update) (pte : BitVec 32) {i : ℕ} (hlow : 26 ≤ i)
    (hhigh : i ≤ 29) : (u.word pte).getLsbD i = pte.getLsbD i := by
  have hpresent : pagingPtePresentMask.getLsbD i = false := by
    interval_cases i <;> decide
  have hswapped : pagingPteSwappedMask.getLsbD i = false := by
    interval_cases i <;> decide
  cases u with
  | setFpn pgn fpn =>
    unfold Update.word pteSetFpn pagingPteFpnMask
    rw [getLsbD_setval_of_not (by decide) (by omega) (by omega), getLsbD_clrbit (by omega),
      getLsbD_setbit, hpresent, hswapped]
    simp
  | setSwap pgn swptyp swpoff =>
    unfold Update.word pteSetSwap pagingPteSwpoffMask pagingPteSwptypMask
    rw [getLsbD_setval_of_not (by decide) (by omega) (by omega),
      getLsbD_setval_of_not (by decide) (by omega) (by omega), getLsbD_setbit, getLsbD_setbit,
      hpresent, hswapped]
    simp

/-! ## 32 and 64 bits -/

theorem setval64_setWidth (v value mask : BitVec 32) (offst : ℕ) :
    setval64 (v.setWidth 64) (value.setWidth 64) mask offst =
      (setval v value mask offst).setWidth 64 := by
  -- What the shift moves past bit 31 is cut off by the mask.
  have hshift : (value.setWidth 64 <<< offst) &&& mask.setWidth 64 =
      ((value <<< offst) &&& mask).setWidth 64 := by
    refine BitVec.eq_of_getLsbD_eq fun i hi => ?_
    rw [BitVec.getLsbD_and, BitVec.getLsbD_shiftLeft, BitVec.getLsbD_setWidth,
      BitVec.getLsbD_setWidth, BitVec.getLsbD_setWidth, BitVec.getLsbD_and,
      BitVec.getLsbD_shiftLeft]
    rcases Nat.lt_or_ge i 32 with h32 | h32
    · have hlow : i - offst < 64 := Nat.lt_of_le_of_lt (Nat.sub_le i offst) hi
      simp [hi, h32, hlow]
    · have hmask : mask.getLsbD i = false := BitVec.getLsbD_of_ge mask i h32
      simp [hmask]
  unfold setval64 setval
  rw [hshift, BitVec.setWidth_or, BitVec.setWidth_and (x := v)]

theorem pteSetFpn64_setWidth (pte fpn : BitVec 32) :
    pteSetFpn64 (pte.setWidth 64) (fpn.setWidth 64) = (pteSetFpn pte fpn).setWidth 64 := by
  unfold pteSetFpn64 pteSetFpn setbit clrbit
  dsimp only
  rw [← BitVec.setWidth_or, ← BitVec.setWidth_and]
  exact setval64_setWidth _ fpn pagingPteFpnMask 0

theorem pteSetSwap64_setWidth (pte swptyp swpoff : BitVec 32) :
    pteSetSwap64 (pte.setWidth 64) swptyp (swpoff.setWidth 64) =
      (pteSetSwap pte swptyp swpoff).setWidth 64 := by
  have hswptyp (v : BitVec 32) : (v.setWidth 64 &&& (~~~pagingPteSwptypMask).setWidth 64) |||
      ((swptyp <<< 0) &&& pagingPteSwptypMask).setWidth 64 =
        (setval v swptyp pagingPteSwptypMask 0).setWidth 64 := by
    rw [← BitVec.setWidth_and, ← BitVec.setWidth_or]
    rfl
  unfold pteSetSwap64 pteSetSwap setbit
  dsimp only
  rw [← BitVec.setWidth_or, ← BitVec.setWidth_or, hswptyp]
  exact setval64_setWidth _ swpoff pagingPteSwpoffMask 5

theorem Update.word64_setWidth (u : Update) (pte : BitVec 32) :
    u.word64 (pte.setWidth 64) = (u.word pte).setWidth 64 := by
  cases u with
  | setFpn pgn fpn => exact pteSetFpn64_setWidth pte fpn
  | setSwap pgn swptyp swpoff => exact pteSetSwap64_setWidth pte swptyp swpoff

/-- `mm64.c` and `mm.c` make the same word of a word that fits 32 bits. -/
theorem foldl_word64 (us : List Update) (pte : BitVec 32) :
    us.foldl (fun pte u => u.word64 pte) (pte.setWidth 64) =
      (us.foldl (fun pte u => u.word pte) pte).setWidth 64 := by
  induction us generalizing pte with
  | nil => rfl
  | cons u us ih => rw [List.foldl_cons, List.foldl_cons, u.word64_setWidth, ih]

/-! ## Histories -/

/-- The updates of the page `p`, in order. -/
def updatesOf (us : List Update) (p : ℕ) : List Update :=
  us.filter fun u => u.pgn = p

theorem Update.apply_self (u : Update) (pgd : ℕ → BitVec 32) :
    u.apply pgd u.pgn = u.word (pgd u.pgn) := by
  cases u with
  | setFpn pgn fpn => exact Function.update_self ..
  | setSwap pgn swptyp swpoff => exact Function.update_self ..

/-- A page sees its own updates and no others. -/
theorem foldl_apply (us : List Update) (pgd : ℕ → BitVec 32) (p : ℕ) :
    us.foldl Update.apply pgd p =
      (updatesOf us p).foldl (fun pte u => u.word pte) (pgd p) := by
  induction us generalizing pgd with
  | nil => rfl
  | cons u us ih =>
    rw [List.foldl_cons, ih, updatesOf, updatesOf, List.filter_cons]
    rcases eq_or_ne u.pgn p with rfl | hp
    · rw [u.apply_self, if_pos (decide_eq_true rfl), List.foldl_cons]
    · rw [u.apply_of_ne hp.symm, if_neg (by simpa using hp)]

/-- The bits 26 to 29 go through any history. -/
theorem getLsbD_foldl_word (us : List Update) (pte : BitVec 32) {i : ℕ} (hlow : 26 ≤ i)
    (hhigh : i ≤ 29) :
    (us.foldl (fun pte u => u.word pte) pte).getLsbD i = pte.getLsbD i := by
  induction us generalizing pte with
  | nil => rfl
  | cons u us ih => rw [List.foldl_cons, ih, u.getLsbD_word pte hlow hhigh]

/-- After any history of updates on any table, the entry of a page reads as its
last update says, or is as it was if the page has none; the bits 26 to 29 are as
they were; and the updates of `mm64.c` on the entry, kept in 64 bits, leave the
same entry. -/
theorem foldl_apply_decodes (pgd : ℕ → BitVec 32) (us : List Update) (hv : ∀ u ∈ us, u.Valid)
    (p : ℕ) :
    (∀ u, lastUpdate us p = some u → u.Decodes (us.foldl Update.apply pgd p)) ∧
    (lastUpdate us p = none → us.foldl Update.apply pgd p = pgd p) ∧
    (∀ i, 26 ≤ i → i ≤ 29 →
      (us.foldl Update.apply pgd p).getLsbD i = (pgd p).getLsbD i) ∧
    (updatesOf us p).foldl (fun pte u => u.word64 pte) ((pgd p).setWidth 64) =
      (us.foldl Update.apply pgd p).setWidth 64 := by
  rw [foldl_apply]
  refine ⟨?_, ?_, fun i hlow hhigh => getLsbD_foldl_word _ _ hlow hhigh, foldl_word64 _ _⟩
  · intro u hu
    obtain ⟨front, hfront⟩ := List.getLast?_eq_some_iff.mp hu
    have hmem : u ∈ us := (List.mem_filter.mp (List.mem_of_getLast? hu)).1
    rw [updatesOf, hfront, List.foldl_append]
    exact Update.decodes_word (hv u hmem) _
  · intro hnone
    rw [updatesOf, List.getLast?_eq_none_iff.mp hnone]
    rfl

/-- A page that goes out and comes back: the frame overlaps the offset it had,
and bit 29 of the starting word is still there. -/
theorem foldl_apply_decodes_backAndForth :
    (∀ u ∈ [Update.setFpn 2 5, .setSwap 2 3 0x1FFFFF, .setFpn 7 1, .setFpn 2 9], u.Valid) ∧
    (Update.setFpn 2 9).Decodes
      ([Update.setFpn 2 5, .setSwap 2 3 0x1FFFFF, .setFpn 7 1, .setFpn 2 9].foldl Update.apply
        (fun _ => 0x20000000) 2) :=
  have hv : ∀ u ∈ [Update.setFpn 2 5, .setSwap 2 3 0x1FFFFF, .setFpn 7 1, .setFpn 2 9],
      u.Valid := by decide
  ⟨hv, (foldl_apply_decodes (fun _ => 0x20000000) _ hv 2).1 _ rfl⟩

end Pte

end SimpleOs
