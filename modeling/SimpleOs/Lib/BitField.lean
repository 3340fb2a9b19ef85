import Mathlib

/-!
# Bit fields of machine words

A word of `w` bits holds fields: ranges of bits given by their highest and
lowest position. This module has the operations that C code writes with masks
and shifts, in the form in which it writes them, and what each does to a single
bit.

* `genmask h l`: the mask of the bits `l` to `h`.
* `getval`, `setval`: read and write the field under a mask.
* `setbit`, `clrbit`: raise and clear the bits of a mask.
* `getval_setval`: a field reads back what was written to it, if it fits.
* `getval_setval_of_disjoint`: a field keeps its value when another is written.
* `toNat_getval`, `ofDigits_fields`: a field as a number, and adjacent fields of
  one width as the digits of a number.
-/

namespace BitField

variable {w : ℕ} {h l h' l' i k n : ℕ} {v value mask : BitVec w}

/-- The mask of the bits `l` to `h`. -/
def genmask (w h l : ℕ) : BitVec w :=
  (BitVec.allOnes w <<< l) &&& (BitVec.allOnes w >>> (w - h - 1))

/-- The field under `mask`, whose lowest bit is `offst`. -/
def getval (v mask : BitVec w) (offst : ℕ) : BitVec w :=
  (v &&& mask) >>> offst

/-- Write `value` to the field under `mask`, whose lowest bit is `offst`. -/
def setval (v value mask : BitVec w) (offst : ℕ) : BitVec w :=
  (v &&& ~~~mask) ||| ((value <<< offst) &&& mask)

/-- Raise the bits of `mask`. -/
def setbit (v mask : BitVec w) : BitVec w :=
  v ||| mask

/-- Clear the bits of `mask`. -/
def clrbit (v mask : BitVec w) : BitVec w :=
  v &&& ~~~mask

/-- The bits of a mask. -/
theorem getLsbD_genmask (hw : h < w) :
    (genmask w h l).getLsbD i = (decide (l ≤ i) && decide (i ≤ h)) := by
  have hlow : (BitVec.allOnes w <<< l).getLsbD i = (decide (i < w) && decide (l ≤ i)) := by
    rw [BitVec.getLsbD_shiftLeft, BitVec.getLsbD_allOnes]
    rcases Nat.lt_or_ge i l with hlow | hhigh
    · simp [hlow, Nat.not_le_of_lt hlow]
    · simp only [hhigh, Nat.not_lt_of_le hhigh, decide_true, decide_false, Bool.not_false,
        Bool.and_true, Bool.and_eq_left_iff_imp, decide_eq_true_eq]
      exact Nat.lt_of_le_of_lt (Nat.sub_le i l)
  have hhigh : (BitVec.allOnes w >>> (w - h - 1)).getLsbD i = decide (i ≤ h) := by
    rw [BitVec.getLsbD_ushiftRight, BitVec.getLsbD_allOnes]
    exact decide_eq_decide.mpr (by omega)
  unfold genmask
  rw [BitVec.getLsbD_and, hlow, hhigh]
  rcases Nat.lt_or_ge h i with hout | hin
  · simp [Nat.not_le_of_lt hout]
  · simp [hin, Nat.lt_of_le_of_lt hin hw]

/-- The bits of a field that is read. -/
theorem getLsbD_getval (hw : h < w) :
    (getval v (genmask w h l) l).getLsbD i = (v.getLsbD (l + i) && decide (l + i ≤ h)) := by
  unfold getval
  rw [BitVec.getLsbD_ushiftRight, BitVec.getLsbD_and, getLsbD_genmask hw]
  simp

/-- The bits of a word after a field was written. -/
theorem getLsbD_setval (hw : h < w) (hi : i < w) :
    (setval v value (genmask w h l) l).getLsbD i =
      if l ≤ i ∧ i ≤ h then value.getLsbD (i - l) else v.getLsbD i := by
  rw [setval, BitVec.getLsbD_or, BitVec.getLsbD_and, BitVec.getLsbD_and, BitVec.getLsbD_not,
    BitVec.getLsbD_shiftLeft, getLsbD_genmask hw]
  by_cases hl : l ≤ i <;> by_cases hh : i ≤ h <;> simp [hl, hh, hi]

/-- Two fields are equal if all their bits are. -/
theorem getval_eq_iff (hw : h < w) {v v' : BitVec w} :
    getval v (genmask w h l) l = getval v' (genmask w h l) l ↔
      ∀ i, l ≤ i → i ≤ h → v.getLsbD i = v'.getLsbD i := by
  constructor
  · intro heq i hl hh
    have hbit := congrArg (fun v => v.getLsbD (i - l)) heq
    simpa [getLsbD_getval hw, Nat.add_sub_cancel' hl, hh] using hbit
  · intro hbits
    refine BitVec.eq_of_getLsbD_eq fun i _ => ?_
    rw [getLsbD_getval hw, getLsbD_getval hw]
    rcases Nat.lt_or_ge h (l + i) with hout | hin
    · rw [decide_eq_false (Nat.not_le.mpr hout), Bool.and_false, Bool.and_false]
    · rw [hbits (l + i) (Nat.le_add_right l i) hin]

/-- Writing a field leaves the bits outside it alone. -/
theorem getLsbD_setval_of_not (hw : h < w) (hi : i < w) (hn : ¬ (l ≤ i ∧ i ≤ h)) :
    (setval v value (genmask w h l) l).getLsbD i = v.getLsbD i := by
  rw [getLsbD_setval hw hi, if_neg hn]

/-- Writing a field leaves the fields that share no bit with it alone. -/
theorem getval_setval_of_disjoint (hw : h < w) (hw' : h' < w) (hd : h' < l ∨ h < l') :
    getval (setval v value (genmask w h l) l) (genmask w h' l') l' =
      getval v (genmask w h' l') l' := by
  refine (getval_eq_iff hw').mpr fun i hl hh => ?_
  refine getLsbD_setval_of_not hw (Nat.lt_of_le_of_lt hh hw') ?_
  rintro ⟨hl', hh'⟩
  rcases hd with hbelow | habove
  · exact Nat.not_lt_of_le (hl'.trans hh) hbelow
  · exact Nat.not_lt_of_le (hl.trans hh') habove

@[simp] theorem getLsbD_setbit : (setbit v mask).getLsbD i = (v.getLsbD i || mask.getLsbD i) :=
  BitVec.getLsbD_or

theorem getLsbD_clrbit (hi : i < w) :
    (clrbit v mask).getLsbD i = (v.getLsbD i && !mask.getLsbD i) := by
  unfold clrbit
  rw [BitVec.getLsbD_and, BitVec.getLsbD_not]
  simp [hi]

/-! ## Fields as numbers -/

theorem toNat_getval (hw : h < w) :
    (getval v (genmask w h l) l).toNat = v.toNat / 2 ^ l % 2 ^ (h + 1 - l) := by
  refine Nat.eq_of_testBit_eq fun i => ?_
  rw [BitVec.testBit_toNat, getLsbD_getval hw, Nat.testBit_mod_two_pow, Nat.testBit_div_two_pow,
    BitVec.testBit_toNat, Nat.add_comm i l, Bool.and_comm]
  congr 1
  exact decide_eq_decide.mpr (by omega)

/-- What does not fit a field is cut off. -/
theorem toNat_getval_setval (hw : h < w) :
    (getval (setval v value (genmask w h l) l) (genmask w h l) l).toNat =
      value.toNat % 2 ^ (h + 1 - l) := by
  refine Nat.eq_of_testBit_eq fun i => ?_
  rw [BitVec.testBit_toNat, getLsbD_getval hw, Nat.testBit_mod_two_pow, BitVec.testBit_toNat]
  rcases Nat.lt_or_ge h (l + i) with hout | hin
  · rw [decide_eq_false (Nat.not_le.mpr hout), decide_eq_false (by omega), Bool.and_false,
      Bool.false_and]
  · rw [getLsbD_setval hw (Nat.lt_of_le_of_lt hin hw), if_pos ⟨Nat.le_add_right l i, hin⟩,
      Nat.add_sub_cancel_left, decide_eq_true hin, decide_eq_true (by omega), Bool.and_true,
      Bool.true_and]

/-- A field reads back what was written to it. -/
theorem getval_setval (hw : h < w) (hfit : value.toNat < 2 ^ (h + 1 - l)) :
    getval (setval v value (genmask w h l) l) (genmask w h l) l = value :=
  BitVec.eq_of_toNat_eq (by rw [toNat_getval_setval hw, Nat.mod_eq_of_lt hfit])

/-- A number modulo a power of the base from its lowest digits. -/
theorem ofDigits_div_mod (b n x : ℕ) :
    Nat.ofDigits b ((List.range n).map fun i => x / b ^ i % b) = x % b ^ n := by
  induction n with
  | zero => simp [Nat.mod_one]
  | succ n ih =>
    rw [List.range_succ, List.map_append, Nat.ofDigits_append, ih, List.length_map,
      List.length_range, List.map_singleton, Nat.ofDigits_singleton, Nat.mod_pow_succ]

/-- The fields of `k` bits from the bit `l` on, the lowest first. -/
def fields (v : BitVec w) (l k n : ℕ) : List ℕ :=
  (List.range n).map fun i =>
    (getval v (genmask w (l + k * i + k - 1) (l + k * i)) (l + k * i)).toNat

theorem fields_eq (hk : 0 < k) (hw : l + k * n ≤ w) :
    fields v l k n = (List.range n).map fun i => v.toNat / 2 ^ l / (2 ^ k) ^ i % 2 ^ k := by
  refine List.map_congr_left fun i hi => ?_
  have hi' : k * (i + 1) ≤ k * n := Nat.mul_le_mul_left k (List.mem_range.mp hi)
  rw [Nat.mul_add, Nat.mul_one] at hi'
  rw [toNat_getval (by omega), Nat.div_div_eq_div_mul, ← Nat.pow_mul, ← Nat.pow_add]
  congr 2
  omega

/-- Adjacent fields of `k` bits are the digits to the base `2 ^ k` of what they
cover, without a gap and without an overlap. -/
theorem ofDigits_fields (hk : 0 < k) (hw : l + k * n ≤ w) :
    Nat.ofDigits (2 ^ k) (fields v l k n) = v.toNat / 2 ^ l % (2 ^ k) ^ n := by
  rw [fields_eq hk hw]
  exact ofDigits_div_mod _ _ _

theorem lt_of_mem_fields (hk : 0 < k) (hw : l + k * n ≤ w) {x : ℕ} (h : x ∈ fields v l k n) :
    x < 2 ^ k := by
  rw [fields_eq hk hw] at h
  obtain ⟨i, -, rfl⟩ := List.mem_map.mp h
  exact Nat.mod_lt _ (Nat.two_pow_pos k)

end BitField
