import SimpleOs.PageFault

/-!
# The life of the pager

No entry of the page table is ever present, so every call of `pg_getpage` is a fault
that takes the oldest page off the FIFO, takes a frame from the swap device and puts
the new page in front. Nothing gives the frames back. With `n` pages and `m` frames
the first `m` calls replace a page each, first in, first out; the next `n - 1` calls
lose a page each and return -1; and the one behind follows a null pointer.

Results:
1. `pgGetpage_replaces`, `pgGetpage_dropsVictim`: one call in each of the two phases.
2. `pager_life`: what a sequence of calls returns and leaves, and when it ends.
-/

namespace SimpleOs

namespace Libmem

open Fifo

variable {krnl : Krnl} {pgns : List (BitVec 32)}

/-- The number of pages in the FIFO. -/
def Krnl.pages (krnl : Krnl) : ℕ :=
  krnl.mm.fifoPgn.length

/-- The number of free frames of the swap device. -/
def Krnl.frames (krnl : Krnl) : ℕ :=
  krnl.activeMswp.freeFpList.length

/-- `pg_getpage` for one page after the other: the frame number that each call stores,
or `none` for -1. -/
def pgGetpages (krnl : Krnl) :
    List (BitVec 32) → Except Fault (List (Option (BitVec 32)) × Krnl)
  | [] => .ok ([], krnl)
  | pgn :: pgns => do
    let (fpn, krnl) ← pgGetpage krnl pgn
    let (fpns, krnl) ← pgGetpages krnl pgns
    return (fpn :: fpns, krnl)

/-- The kernel after the calls: each call up to the last frame puts its page in front
of the FIFO, and the FIFO keeps its length up to there. -/
def Krnl.afterFaults (krnl : Krnl) (pgns : List (BitVec 32)) : Krnl :=
  let listed := (pgns.take krnl.frames).map fun pgn => pgn.signExtend 64
  let fifoPgn := (listed.reverse ++ krnl.mm.fifoPgn).take
    (krnl.pages - (pgns.length - krnl.frames))
  { mm := { krnl.mm with fifoPgn := fifoPgn }
    activeMswp := { krnl.activeMswp with
      freeFpList := krnl.activeMswp.freeFpList.drop pgns.length } }

/-! ## One call -/

theorem pagingFpn_zero : Pte.pagingFpn 0 = 0 := by
  decide

/-- The kernel with the page in place of the oldest one, and the first frame taken. -/
def Krnl.replaceVictim (krnl : Krnl) (pgn : BitVec 32) : Krnl where
  mm := { krnl.mm with fifoPgn := pgn.signExtend 64 :: krnl.mm.fifoPgn.dropLast }
  activeMswp := { krnl.activeMswp with freeFpList := krnl.activeMswp.freeFpList.tail }

/-- With two pages and a frame the oldest page is replaced. -/
theorem pgGetpage_replaces (hpages : 2 ≤ krnl.pages) (hframes : 0 < krnl.frames)
    (pgn : BitVec 32) : pgGetpage krnl pgn = .ok (some 0, krnl.replaceVictim pgn) := by
  obtain ⟨v, rest, hvictim⟩ := (two_le_length_iff _).mp hpages
  obtain ⟨frame, frames, hfree⟩ := List.exists_cons_of_length_pos hframes
  have hframe : krnl.activeMswp.getFreefp = some (frame, ⟨frames⟩) := by
    unfold Memphy.getFreefp
    rw [hfree]
  rw [pgGetpage_eq, hvictim, hframe, (findVictim_eq_some hvictim).2, pagingFpn_zero,
    Krnl.replaceVictim, hfree]
  rfl

/-- With one page the predecessor of the victim is null. -/
theorem pgGetpage_single (hpages : krnl.pages = 1) (pgn : BitVec 32) :
    pgGetpage krnl pgn = .error .nullDeref := by
  obtain ⟨v, hv⟩ := List.length_eq_one_iff.mp hpages
  rw [pgGetpage_eq, hv, findVictim_singleton]

/-- With no page nothing happens. -/
theorem pgGetpage_nil (hpages : krnl.pages = 0) (pgn : BitVec 32) :
    pgGetpage krnl pgn = .ok (none, krnl) := by
  rw [pgGetpage_eq, List.length_eq_zero_iff.mp hpages, findVictim_nil]

theorem pages_replaceVictim (hpages : 0 < krnl.pages) (pgn : BitVec 32) :
    (krnl.replaceVictim pgn).pages = krnl.pages := by
  show (krnl.mm.fifoPgn.dropLast).length + 1 = krnl.mm.fifoPgn.length
  rw [List.length_dropLast]
  exact Nat.sub_add_cancel hpages

theorem frames_replaceVictim (krnl : Krnl) (pgn : BitVec 32) :
    (krnl.replaceVictim pgn).frames = krnl.frames - 1 :=
  List.length_tail

theorem pages_dropVictim (krnl : Krnl) : krnl.dropVictim.pages = krnl.pages - 1 :=
  List.length_dropLast

/-! ## One call before the others -/

/-- The oldest page is behind what the FIFO keeps. -/
theorem take_append_dropLast {α : Type*} {l : List α} (hl : l ≠ []) (front : List α) (x : α)
    {j : ℕ} (hj : j ≤ l.length) :
    (front ++ x :: l.dropLast).take j = (front ++ [x] ++ l).take j := by
  have hsplit : front ++ [x] ++ l = front ++ x :: l.dropLast ++ [l.getLast hl] := by
    conv_lhs => rw [← List.dropLast_concat_getLast hl]
    simp
  have hlen : j ≤ (front ++ x :: l.dropLast).length := by
    have hpos : 0 < l.length := List.length_pos_iff.mpr hl
    rw [List.length_append, List.length_cons, List.length_dropLast]
    omega
  rw [hsplit, List.take_append_of_le_length hlen]

theorem afterFaults_replaceVictim (hpages : 0 < krnl.pages) (hframes : 0 < krnl.frames)
    (pgn : BitVec 32) (pgns : List (BitVec 32)) :
    (krnl.replaceVictim pgn).afterFaults pgns = krnl.afterFaults (pgn :: pgns) := by
  have hlast : krnl.mm.fifoPgn ≠ [] := List.length_pos_iff.mp hpages
  have hsub : krnl.pages - (pgns.length - (krnl.frames - 1)) =
      krnl.pages - ((pgn :: pgns).length - krnl.frames) := by
    rw [List.length_cons]
    omega
  have htake : (pgn :: pgns).take krnl.frames = pgn :: pgns.take (krnl.frames - 1) := by
    obtain ⟨m, hm⟩ := Nat.exists_eq_succ_of_ne_zero hframes.ne'
    rw [hm]
    rfl
  have hle : krnl.pages - ((pgn :: pgns).length - krnl.frames) ≤ krnl.mm.fifoPgn.length :=
    Nat.sub_le _ _
  unfold Krnl.afterFaults
  rw [pages_replaceVictim hpages, frames_replaceVictim, hsub, htake]
  dsimp only [Krnl.replaceVictim]
  rw [take_append_dropLast hlast _ _ hle, List.map_cons, List.reverse_cons, List.drop_tail]
  rfl

theorem afterFaults_dropVictim (hframes : krnl.frames = 0) (pgn : BitVec 32)
    (pgns : List (BitVec 32)) :
    krnl.dropVictim.afterFaults pgns = krnl.afterFaults (pgn :: pgns) := by
  have hfree : krnl.activeMswp.freeFpList = [] := List.length_eq_zero_iff.mp hframes
  have hframes' : krnl.dropVictim.frames = 0 := hframes
  have hmin : min (krnl.pages - 1 - (pgns.length - 0)) (krnl.mm.fifoPgn.length - 1) =
      krnl.pages - ((pgn :: pgns).length - 0) := by
    rw [List.length_cons, ← Krnl.pages]
    omega
  unfold Krnl.afterFaults
  rw [pages_dropVictim, hframes, hframes']
  dsimp only [Krnl.dropVictim]
  rw [hfree, List.drop_nil, List.drop_nil, List.dropLast_eq_take]
  simp only [List.take_zero, List.map_nil, List.reverse_nil, List.nil_append, List.take_take]
  rw [hmin]

theorem afterFaults_nil (krnl : Krnl) : krnl.afterFaults [] = krnl := by
  simp [Krnl.afterFaults, Krnl.pages]

/-! ## All calls -/

theorem pgGetpages_cons_ok {fpn : Option (BitVec 32)} {krnl' : Krnl} {pgn : BitVec 32}
    (h : pgGetpage krnl pgn = .ok (fpn, krnl')) :
    pgGetpages krnl (pgn :: pgns) =
      (pgGetpages krnl' pgns).map fun (fpns, krnl) => (fpn :: fpns, krnl) := by
  rw [pgGetpages, h]
  simp only [ok_bind]
  cases hrest : pgGetpages krnl' pgns <;> rfl

/-- As long as a page and a frame, or two pages, are left, every call returns. -/
theorem pgGetpages_ok (hphase : 2 ≤ krnl.pages ∨ krnl.frames = 0)
    (hlen : pgns.length < krnl.frames + krnl.pages) :
    pgGetpages krnl pgns = .ok (List.replicate (min pgns.length krnl.frames) (some 0) ++
      List.replicate (pgns.length - krnl.frames) none, krnl.afterFaults pgns) := by
  induction pgns generalizing krnl with
  | nil => simp [pgGetpages, afterFaults_nil]
  | cons pgn pgns ih =>
    rw [List.length_cons] at hlen
    rcases Nat.eq_zero_or_pos krnl.frames with hzero | hpos
    · have hpages : 2 ≤ krnl.pages := by omega
      have hexhausted : SwapExhausted krnl := ⟨hpages, List.length_eq_zero_iff.mp hzero⟩
      have hzero' : krnl.dropVictim.frames = 0 := hzero
      have hlen' : pgns.length < krnl.dropVictim.frames + krnl.dropVictim.pages := by
        rw [hzero', pages_dropVictim]
        omega
      rw [pgGetpages_cons_ok (pgGetpage_dropsVictim hexhausted pgn), ih (.inr hzero') hlen',
        afterFaults_dropVictim hzero pgn, hzero, hzero']
      simp [Except.map, List.replicate_succ]
    · have hpages : 2 ≤ krnl.pages := hphase.resolve_right hpos.ne'
      have hlen' : pgns.length < (krnl.replaceVictim pgn).frames +
          (krnl.replaceVictim pgn).pages := by
        rw [frames_replaceVictim, pages_replaceVictim (by omega)]
        omega
      have hphase' : 2 ≤ (krnl.replaceVictim pgn).pages := by
        rwa [pages_replaceVictim (by omega)]
      rw [pgGetpages_cons_ok (pgGetpage_replaces hpages hpos pgn), ih (.inl hphase') hlen',
        afterFaults_replaceVictim (by omega) hpos, frames_replaceVictim]
      have hmin : min (pgns.length + 1) krnl.frames = min pgns.length (krnl.frames - 1) + 1 := by
        omega
      have hsub : pgns.length + 1 - krnl.frames = pgns.length - (krnl.frames - 1) := by
        omega
      rw [List.length_cons, hmin, hsub, List.replicate_succ]
      rfl

/-- Then the next call faults. -/
theorem pgGetpages_error (hphase : 2 ≤ krnl.pages ∨ krnl.frames = 0) (hpages : 0 < krnl.pages)
    (hlen : krnl.frames + krnl.pages ≤ pgns.length) :
    pgGetpages krnl pgns = .error .nullDeref := by
  induction pgns generalizing krnl with
  | nil =>
    rw [List.length_nil] at hlen
    omega
  | cons pgn pgns ih =>
    rw [List.length_cons] at hlen
    rcases Nat.eq_or_lt_of_le hpages with hone | htwo
    · rw [pgGetpages, pgGetpage_single hone.symm]
      rfl
    · rcases Nat.eq_zero_or_pos krnl.frames with hzero | hpos
      · have hexhausted : SwapExhausted krnl := ⟨htwo, List.length_eq_zero_iff.mp hzero⟩
        have hzero' : krnl.dropVictim.frames = 0 := hzero
        have hpages' : krnl.dropVictim.pages = krnl.pages - 1 := pages_dropVictim krnl
        rw [pgGetpages_cons_ok (pgGetpage_dropsVictim hexhausted pgn),
          ih (.inr hzero') (by omega) (by omega)]
        rfl
      · have hpages' : (krnl.replaceVictim pgn).pages = krnl.pages :=
          pages_replaceVictim hpages pgn
        have hframes' := frames_replaceVictim krnl pgn
        rw [pgGetpages_cons_ok (pgGetpage_replaces htwo hpos pgn),
          ih (.inl (by omega)) (by omega) (by omega)]
        rfl

/-- The whole life of the pager, from two pages on. The first calls replace a page each,
and every one of them stores frame number 0; when the frames are gone, the calls lose a
page each and return -1; the call that finds a single page is undefined. -/
theorem pager_life (hpages : 2 ≤ krnl.pages) (pgns : List (BitVec 32)) :
    (pgns.length < krnl.frames + krnl.pages →
      pgGetpages krnl pgns = .ok (List.replicate (min pgns.length krnl.frames) (some 0) ++
        List.replicate (pgns.length - krnl.frames) none, krnl.afterFaults pgns)) ∧
    (krnl.frames + krnl.pages ≤ pgns.length → pgGetpages krnl pgns = .error .nullDeref) :=
  ⟨pgGetpages_ok (.inl hpages),
    pgGetpages_error (.inl hpages) (Nat.zero_lt_two.trans_le hpages)⟩

/-- Two pages and one frame. -/
def twoPagesOneFrame : Krnl where
  mm := { bareKrnl.mm with fifoPgn := [2, 1] }
  activeMswp := ⟨[9]⟩

/-- Page 3 takes the place of page 1, page 4 is not had and costs page 2, and the third
call is undefined. -/
theorem pager_life_twoPages :
    (∃ krnl, pgGetpages twoPagesOneFrame [3, 4] = .ok ([some 0, none], krnl) ∧
      krnl.mm.fifoPgn = [3] ∧ krnl.activeMswp.freeFpList = []) ∧
    pgGetpages twoPagesOneFrame [3, 4, 5] = .error .nullDeref := by
  have hpages : 2 ≤ twoPagesOneFrame.pages := by decide
  exact ⟨⟨_, (pager_life hpages [3, 4]).1 (by decide), by decide, rfl⟩,
    (pager_life hpages [3, 4, 5]).2 (by decide)⟩

end Libmem

end SimpleOs
