import SimpleOs.Memphy
import SimpleOs.Pte

/-!
# Tearing down a process

`free_pcb_memph` walks over the page table of a process and gives each entry's
frame back to RAM if the entry is present and to swap if it is not. The writers
of entries raise the present bit for swapped pages too, and an entry that was
never written is not present. So the test does not tell online pages from
swapped ones, and a page that was never mapped is taken for a swapped one.

Results:
1. `freePcbMemph_mram`, `freePcbMemph_mswp`: what the walk adds to the two free
   lists, for every page table.
2. `not_returnsFrames`: for no history of updates is this what the history
   mapped.
-/

namespace SimpleOs

namespace Pte

/-- An update of a page-table entry. -/
inductive Update
  | setFpn (pgn : ℕ) (fpn : BitVec 32)
  | setSwap (pgn : ℕ) (swptyp swpoff : BitVec 32)
  deriving DecidableEq

/-- The page that is updated. -/
def Update.pgn : Update → ℕ
  | .setFpn pgn _ | .setSwap pgn _ _ => pgn

/-- The page exists and the values fit their fields. -/
def Update.Valid : Update → Prop
  | .setFpn pgn fpn => pgn < pagingMaxPgn ∧ fpn.toNat < 2 ^ 13
  | .setSwap pgn swptyp swpoff =>
    pgn < pagingMaxPgn ∧ swptyp.toNat < 2 ^ 5 ∧ swpoff.toNat < 2 ^ 21

instance : DecidablePred Update.Valid := fun u => by
  cases u <;> exact inferInstanceAs (Decidable (_ ∧ _))

/-- One update of the table `pgd`. -/
def Update.apply (pgd : ℕ → BitVec 32) : Update → ℕ → BitVec 32
  | .setFpn pgn fpn => Function.update pgd pgn (pteSetFpn (pgd pgn) fpn)
  | .setSwap pgn swptyp swpoff =>
    Function.update pgd pgn (pteSetSwap (pgd pgn) swptyp swpoff)

/-- The table that a sequence of updates makes of an all-zero table. -/
def table (us : List Update) : ℕ → BitVec 32 :=
  us.foldl Update.apply fun _ => 0

/-! ## The walk -/

/-- One round of the loop of `free_pcb_memph`. -/
def freePage (pgd : ℕ → BitVec 32) (mp : Memphy (BitVec 32) × Memphy (BitVec 32))
    (pagenum : ℕ) : Memphy (BitVec 32) × Memphy (BitVec 32) :=
  let pte := pgd pagenum
  if pagingPagePresent pte then (mp.1.putFreefp (pagingFpn pte), mp.2)
  else (mp.1, mp.2.putFreefp (pagingSwp pte))

/-- `free_pcb_memph`: RAM and the active swap device after the walk. -/
def freePcbMemph (pgd : ℕ → BitVec 32) (mram mswp : Memphy (BitVec 32)) :
    Memphy (BitVec 32) × Memphy (BitVec 32) :=
  (List.range pagingMaxPgn).foldl (freePage pgd) (mram, mswp)

/-- The pages below `n` whose entry is present. -/
def presentPages (pgd : ℕ → BitVec 32) (pages : List ℕ) : List ℕ :=
  pages.filter fun p => pagingPagePresent (pgd p)

/-- The others. -/
def absentPages (pgd : ℕ → BitVec 32) (pages : List ℕ) : List ℕ :=
  pages.filter fun p => !pagingPagePresent (pgd p)

theorem foldl_freePage (pgd : ℕ → BitVec 32) (pages : List ℕ)
    (mp : Memphy (BitVec 32) × Memphy (BitVec 32)) :
    (pages.foldl (freePage pgd) mp).1.freeFpList =
      ((presentPages pgd pages).map fun p => pagingFpn (pgd p)).reverse ++ mp.1.freeFpList ∧
    (pages.foldl (freePage pgd) mp).2.freeFpList =
      ((absentPages pgd pages).map fun p => pagingSwp (pgd p)).reverse ++ mp.2.freeFpList := by
  induction pages generalizing mp with
  | nil => exact ⟨rfl, rfl⟩
  | cons p pages ih =>
    obtain ⟨ih1, ih2⟩ := ih (freePage pgd mp p)
    rw [List.foldl_cons, ih1, ih2]
    by_cases hp : pagingPagePresent (pgd p) = true
    · simp [presentPages, absentPages, freePage, hp]
    · simp [presentPages, absentPages, freePage, hp]

/-- RAM gets the frame field of every present entry. -/
theorem freePcbMemph_mram (pgd : ℕ → BitVec 32) (mram mswp : Memphy (BitVec 32)) :
    (freePcbMemph pgd mram mswp).1.freeFpList =
      ((presentPages pgd (List.range pagingMaxPgn)).map fun p => pagingFpn (pgd p)).reverse ++
        mram.freeFpList := by
  unfold freePcbMemph
  exact (foldl_freePage pgd (List.range pagingMaxPgn) (mram, mswp)).1

/-- Swap gets the offset field of every entry that is not present. -/
theorem freePcbMemph_mswp (pgd : ℕ → BitVec 32) (mram mswp : Memphy (BitVec 32)) :
    (freePcbMemph pgd mram mswp).2.freeFpList =
      ((absentPages pgd (List.range pagingMaxPgn)).map fun p => pagingSwp (pgd p)).reverse ++
        mswp.freeFpList := by
  unfold freePcbMemph
  exact (foldl_freePage pgd (List.range pagingMaxPgn) (mram, mswp)).2

/-! ## What a history maps -/

/-- The last update of page `p`, if it was ever mapped. -/
def lastUpdate (us : List Update) (p : ℕ) : Option Update :=
  (us.filter fun u => u.pgn = p).getLast?

/-- The frame of an online page. -/
def Update.onlineFrame : Update → Option (BitVec 32)
  | .setFpn _ fpn => some fpn
  | .setSwap _ _ _ => none

/-- The offset of a swapped page. -/
def Update.swapOffset : Update → Option (BitVec 32)
  | .setFpn _ _ => none
  | .setSwap _ _ swpoff => some swpoff

/-- The frames of the pages last mapped by `pte_set_fpn`, one for each page. -/
def onlineFrames (us : List Update) (pages : List ℕ) : List (BitVec 32) :=
  pages.filterMap fun p => (lastUpdate us p).bind Update.onlineFrame

/-- The offsets of the pages last mapped by `pte_set_swap`, one for each page. -/
def swapOffsets (us : List Update) (pages : List ℕ) : List (BitVec 32) :=
  pages.filterMap fun p => (lastUpdate us p).bind Update.swapOffset

/-- The walk over the table of the history `us` gives back what the history
mapped: to RAM each frame of an online page once, to swap each offset of a
swapped page once, and nothing else. -/
def ReturnsFrames (us : List Update) (mram mswp : Memphy (BitVec 32)) : Prop :=
  let pages := List.range pagingMaxPgn
  (freePcbMemph (table us) mram mswp).1.freeFpList.Perm
    (onlineFrames us pages ++ mram.freeFpList) ∧
  (freePcbMemph (table us) mram mswp).2.freeFpList.Perm
    (swapOffsets us pages ++ mswp.freeFpList)

theorem lastUpdate_snoc (us : List Update) (u : Update) (p : ℕ) :
    lastUpdate (us ++ [u]) p = if u.pgn = p then some u else lastUpdate us p := by
  unfold lastUpdate
  rw [List.filter_append]
  split
  · next hu => simp [hu]
  · next hu => simp [hu]

theorem table_snoc (us : List Update) (u : Update) : table (us ++ [u]) = u.apply (table us) := by
  unfold table
  rw [List.foldl_append]
  rfl

/-- An update touches the entry of its page only. -/
theorem Update.apply_of_ne {pgd : ℕ → BitVec 32} (u : Update) {p : ℕ} (hp : p ≠ u.pgn) :
    u.apply pgd p = pgd p := by
  cases u with
  | setFpn pgn fpn => exact Function.update_of_ne hp _ _
  | setSwap pgn swptyp swpoff => exact Function.update_of_ne hp _ _

/-- An update raises the present bit of its page and touches no other. -/
theorem present_apply (pgd : ℕ → BitVec 32) (u : Update) (p : ℕ) :
    pagingPagePresent (u.apply pgd p) = (decide (u.pgn = p) || pagingPagePresent (pgd p)) := by
  rcases eq_or_ne u.pgn p with rfl | hp
  · cases u with
    | setFpn pgn fpn => simp [Update.apply, Update.pgn, present_pteSetFpn]
    | setSwap pgn swptyp swpoff => simp [Update.apply, Update.pgn, present_pteSetSwap]
  · rw [u.apply_of_ne (Ne.symm hp)]
    simp [hp]

/-- An entry is present exactly if its page was ever mapped. -/
theorem present_table (us : List Update) (p : ℕ) :
    pagingPagePresent (table us p) = (lastUpdate us p).isSome := by
  induction us using List.reverseRecOn with
  | nil => exact pagingPagePresent_zero
  | append_singleton us u ih =>
    rw [table_snoc, present_apply, ih, lastUpdate_snoc]
    by_cases hp : u.pgn = p <;> simp [hp]

/-- Each mapped page is online or swapped, and only one of them. -/
theorem length_online_add_swap (us : List Update) (pages : List ℕ) :
    (onlineFrames us pages).length + (swapOffsets us pages).length =
      (presentPages (table us) pages).length := by
  induction pages with
  | nil => rfl
  | cons p pages ih =>
    rw [onlineFrames, swapOffsets, presentPages] at ih ⊢
    rw [List.filterMap_cons, List.filterMap_cons, List.filter_cons, present_table]
    cases hu : lastUpdate us p with
    | none => simpa using ih
    | some u => cases u <;> simp [Update.onlineFrame, Update.swapOffset] <;> omega

theorem length_present_add_absent (pgd : ℕ → BitVec 32) (pages : List ℕ) :
    (presentPages pgd pages).length + (absentPages pgd pages).length = pages.length := by
  unfold presentPages absentPages
  exact (List.length_eq_length_filter_add _).symm

/-- Frame numbers fit 13 bits, so there are fewer of them than pages. -/
theorem length_onlineFrames {us : List Update} (hv : ∀ u ∈ us, u.Valid) {pages : List ℕ}
    (hn : (onlineFrames us pages).Nodup) : (onlineFrames us pages).length ≤ 2 ^ 13 := by
  have hlt : ∀ x ∈ (onlineFrames us pages).map BitVec.toNat, x ∈ List.range (2 ^ 13) := by
    intro x hx
    obtain ⟨fpn, hfpn, rfl⟩ := List.mem_map.mp hx
    obtain ⟨p, -, hp⟩ := List.mem_filterMap.mp hfpn
    obtain ⟨u, hu, hfr⟩ := Option.bind_eq_some_iff.mp hp
    have hmem : u ∈ us := (List.mem_filter.mp (List.mem_of_getLast? hu)).1
    cases u with
    | setFpn pgn fpn' =>
      cases hfr
      exact List.mem_range.mpr (hv _ hmem).2
    | setSwap _ _ _ => cases hfr
  have hnodup : ((onlineFrames us pages).map BitVec.toNat).Nodup :=
    hn.map fun _ _ h => BitVec.eq_of_toNat_eq h
  simpa using (List.subperm_of_subset hnodup hlt).length_le

/-- The walk gives back what the history mapped for no history at all: it would
take one in which all pages are online, and there are not that many frames. -/
theorem not_returnsFrames {us : List Update} (hv : ∀ u ∈ us, u.Valid)
    (hn : (onlineFrames us (List.range pagingMaxPgn)).Nodup) (mram mswp : Memphy (BitVec 32)) :
    ¬ ReturnsFrames us mram mswp := by
  rintro ⟨hram, hswp⟩
  have hlram := hram.length_eq
  have hlswp := hswp.length_eq
  rw [freePcbMemph_mram, List.length_append, List.length_append, List.length_reverse,
    List.length_map] at hlram
  rw [freePcbMemph_mswp, List.length_append, List.length_append, List.length_reverse,
    List.length_map] at hlswp
  have hmapped := length_online_add_swap us (List.range pagingMaxPgn)
  have hall := length_present_add_absent (table us) (List.range pagingMaxPgn)
  have hframes := length_onlineFrames hv hn
  rw [List.length_range, pagingMaxPgn_eq] at hall
  rw [pagingMaxPgn_eq] at *
  omega

/-- A device with no free frame. -/
def exhausted : Memphy (BitVec 32) where
  freeFpList := []

/-- Page 0 is online in frame 5 and page 1 is swapped out to offset 7. -/
def twoPages : List Update :=
  [.setFpn 0 5, .setSwap 1 3 7]

theorem onlineFrame_twoPages :
    ∀ p, (lastUpdate twoPages p).bind Update.onlineFrame = if p = 0 then some 5 else none
  | 0 | 1 | _ + 2 => rfl

theorem onlineFrames_twoPages_nodup (n : ℕ) : (onlineFrames twoPages (List.range n)).Nodup := by
  refine List.nodup_range.filterMap fun p q fpn hp hq => ?_
  rw [onlineFrame_twoPages] at hp hq
  by_cases h : p = 0 <;> by_cases h' : q = 0 <;> simp_all

/-- The walk fails for `twoPages`. -/
theorem not_returnsFrames_twoPages : ¬ ReturnsFrames twoPages exhausted exhausted :=
  not_returnsFrames (by decide) (onlineFrames_twoPages_nodup _) exhausted exhausted

/-- RAM gets frame 227, which no page of `twoPages` uses: the offset and type of
the swapped page, read as a frame number. -/
theorem mram_gets_swapped_page :
    (∀ u ∈ twoPages, u.Valid) ∧ (onlineFrames twoPages (List.range pagingMaxPgn)).Nodup ∧
    227 ∈ (freePcbMemph (table twoPages) exhausted exhausted).1.freeFpList ∧
    ¬ ReturnsFrames twoPages exhausted exhausted := by
  have hmem : 227 ∈ (freePcbMemph (table twoPages) exhausted exhausted).1.freeFpList := by
    rw [freePcbMemph_mram, List.mem_append, List.mem_reverse, List.mem_map]
    refine .inl ⟨1, List.mem_filter.mpr ⟨?_, by decide⟩, by decide⟩
    rw [pagingMaxPgn_eq]
    exact List.mem_range.mpr (by decide)
  refine ⟨by decide, onlineFrames_twoPages_nodup _, hmem, fun ⟨hram, _⟩ => ?_⟩
  have hin := hram.mem_iff.mp hmem
  rw [List.mem_append] at hin
  rcases hin with hin | hin
  · obtain ⟨p, -, hp⟩ := List.mem_filterMap.mp hin
    rw [onlineFrame_twoPages] at hp
    split at hp
    · exact absurd hp (by decide)
    · cases hp
  · cases hin

end Pte

end SimpleOs
