import Mathlib

/-!
# How often a list of sets covers a point

Where things move between several places, no point is lost or doubled if the
sets of all places, taken as one list, cover every point as often as before.
This module counts that. Both the union of the sets and whether they are
pairwise disjoint can be read off the count, so a step that keeps it keeps both.

* `mult L b`: how many sets of `L` hold `b`.
* `union_nil`, `union_append`, `union_cons`: the union of a list in parts.
* `mem_union_iff`, `pairwise_disjoint_iff`: the union is where the count is
  positive, and the sets are pairwise disjoint where it is at most 1.
* `mult_Ico_append`: cutting an interval keeps the count.
* `map_update_perm`: one entry of a table taken out of the list of its entries.
-/

namespace Cover

variable {β ι : Type*} {L L' : List (Set β)} {s : Set β} {b : β}

open Classical in
/-- How many sets of `L` hold `b`. -/
noncomputable def mult (L : List (Set β)) (b : β) : ℕ :=
  L.countP fun s => b ∈ s

/-- The points that some set of `L` holds. -/
def union (L : List (Set β)) : Set β :=
  {b | ∃ s ∈ L, b ∈ s}

@[simp] theorem mult_nil : mult ([] : List (Set β)) b = 0 := rfl

theorem mult_cons : mult (s :: L) b = mult [s] b + mult L b := by
  unfold mult
  rw [← List.countP_append]
  rfl

@[simp] theorem mult_append : mult (L ++ L') b = mult L b + mult L' b :=
  List.countP_append

theorem mult_perm (h : L.Perm L') : mult L b = mult L' b :=
  h.countP_eq _

theorem mult_singleton_of_mem (h : b ∈ s) : mult [s] b = 1 := by
  simp [mult, h]

theorem mult_singleton_of_not_mem (h : b ∉ s) : mult [s] b = 0 := by
  simp [mult, h]

theorem mult_singleton_empty : mult [(∅ : Set β)] b = 0 :=
  mult_singleton_of_not_mem (Set.notMem_empty b)

theorem mem_union_iff : b ∈ union L ↔ 0 < mult L b := by
  unfold mult
  rw [List.countP_pos_iff]
  simp [union]

theorem union_nil : union ([] : List (Set β)) = ∅ := by
  simp [union]

theorem union_append : union (L ++ L') = union L ∪ union L' := by
  ext b
  rw [Set.mem_union, mem_union_iff, mem_union_iff, mem_union_iff, mult_append,
    Nat.add_pos_iff_pos_or_pos]

theorem union_cons : union (s :: L) = s ∪ union L := by
  ext b
  simp [union]

/-- The sets are pairwise disjoint exactly if none is covered twice. -/
theorem pairwise_disjoint_iff : L.Pairwise Disjoint ↔ ∀ b, mult L b ≤ 1 := by
  induction L with
  | nil => simp
  | cons s L ih =>
    rw [List.pairwise_cons, ih]
    constructor
    · rintro ⟨hdisj, hrest⟩ b
      rw [mult_cons]
      by_cases hb : b ∈ s
      · have hnot : ¬ 0 < mult L b := by
          intro hpos
          obtain ⟨t, ht, hbt⟩ := mem_union_iff.mpr hpos
          exact Set.disjoint_left.mp (hdisj t ht) hb hbt
        rw [mult_singleton_of_mem hb]
        omega
      · rw [mult_singleton_of_not_mem hb, Nat.zero_add]
        exact hrest b
    · intro hone
      constructor
      · intro t ht
        refine Set.disjoint_left.mpr fun b hb hbt => ?_
        have hpos : 0 < mult L b := mem_union_iff.mp ⟨t, ht, hbt⟩
        have hle := hone b
        rw [mult_cons, mult_singleton_of_mem hb] at hle
        omega
      · intro b
        have hle := hone b
        rw [mult_cons] at hle
        omega

/-- A list that covers every point as often covers the same points. -/
theorem union_eq (h : ∀ b, mult L b = mult L' b) : union L = union L' := by
  ext b
  rw [mem_union_iff, mem_union_iff, h b]

/-- A list that covers every point as often is as disjoint. -/
theorem pairwise_disjoint_of_mult (h : ∀ b, mult L b = mult L' b) (hL : L.Pairwise Disjoint) :
    L'.Pairwise Disjoint := by
  rw [pairwise_disjoint_iff] at hL ⊢
  intro b
  rw [← h b]
  exact hL b

/-- A set taken out of a disjoint list takes its points with it. -/
theorem union_eq_diff (h : ∀ b, mult L b = mult (s :: L') b) (hL : L.Pairwise Disjoint) :
    union L' = union L \ s := by
  have hL' := pairwise_disjoint_of_mult h hL
  have hdisj : ∀ t ∈ L', Disjoint s t := (List.pairwise_cons.mp hL').1
  rw [union_eq h]
  ext b
  constructor
  · rintro ⟨t, ht, hb⟩
    exact ⟨⟨t, List.mem_cons_of_mem _ ht, hb⟩, fun hs => Set.disjoint_left.mp (hdisj t ht) hs hb⟩
  · rintro ⟨⟨t, ht, hb⟩, hs⟩
    rcases List.mem_cons.mp ht with rfl | ht
    · exact absurd hb hs
    · exact ⟨t, ht, hb⟩

/-- An interval cut in two covers what it covered. -/
theorem mult_Ico_append {a m c b : ℕ} (ham : a ≤ m) (hmc : m ≤ c) :
    mult [Set.Ico a c] b = mult [Set.Ico a m] b + mult [Set.Ico m c] b := by
  have hcount (x y : ℕ) : mult [Set.Ico x y] b = if x ≤ b ∧ b < y then 1 else 0 := by
    by_cases h : x ≤ b ∧ b < y
    · rw [if_pos h]
      exact mult_singleton_of_mem h
    · rw [if_neg h]
      exact mult_singleton_of_not_mem h
  rw [hcount, hcount, hcount]
  rcases Nat.lt_or_ge b m with hm | hm
  · rw [if_neg (c := m ≤ b ∧ b < c) (by omega), Nat.add_zero]
    exact if_congr (by omega) rfl rfl
  · rw [if_neg (c := a ≤ b ∧ b < m) (by omega), Nat.zero_add]
    exact if_congr (by omega) rfl rfl

/-- The entries of a table before and after one of them is replaced, up to
order: the same list with the old and the new entry in front. -/
theorem map_update_perm [DecidableEq ι] {keys : List ι} {i : ι} (hnodup : keys.Nodup)
    (hmem : i ∈ keys) (f : ι → β) (x : β) :
    ∃ others, (keys.map f).Perm (f i :: others) ∧
      (keys.map (Function.update f i x)).Perm (x :: others) := by
  obtain ⟨front, back, rfl⟩ := List.append_of_mem hmem
  have hnot : i ∉ front ++ back := by
    have hperm : (front ++ i :: back).Perm (i :: (front ++ back)) := List.perm_middle
    exact (List.nodup_cons.mp (hperm.nodup_iff.mp hnodup)).1
  have hkeep (keys : List ι) (h : i ∉ keys) : keys.map (Function.update f i x) = keys.map f :=
    List.map_congr_left fun j hj => Function.update_of_ne (by rintro rfl; exact h hj) x f
  refine ⟨front.map f ++ back.map f, ?_, ?_⟩
  · rw [List.map_append, List.map_cons]
    exact List.perm_middle
  · rw [List.map_append, List.map_cons, Function.update_self,
      hkeep front fun h => hnot (List.mem_append_left _ h),
      hkeep back fun h => hnot (List.mem_append_right _ h)]
    exact List.perm_middle

end Cover
