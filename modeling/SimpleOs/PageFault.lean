import SimpleOs.Libmem

/-!
# A page fault that fails

`pg_getpage` takes two things away in a row, a victim from the page FIFO and then
a free frame from the swap device. If there is no frame it returns -1, and the
victim, which it has freed by then, is not put back.

Results:
1. `pgGetpage_dropsVictim`: what a fault leaves that finds a victim and no frame.
2. `failsClean_iff`: a fault that fails changes nothing exactly if it does not
   get so far.
-/

namespace SimpleOs

namespace Libmem

open Fifo

/-- `struct krnl_t` with the RAM device, which `pg_getpage` can reach. -/
@[ext]
structure KrnlRam where
  krnl : Krnl
  mram : Memphy Addr

/-- `pg_getpage`: no statement of it mentions `mram`. -/
def KrnlRam.pgGetpage (k : KrnlRam) (pgn : BitVec 32) :
    Except Fault (Option (BitVec 32) × KrnlRam) :=
  (Libmem.pgGetpage k.krnl pgn).map fun (fpn, krnl) => (fpn, { k with krnl := krnl })

/-- If `pg_getpage` returns -1, it leaves everything as it was. -/
def FailsClean (k : KrnlRam) (pgn : BitVec 32) : Prop :=
  ∀ k', k.pgGetpage pgn = .ok (none, k') → k' = k

/-- The swap device has no free frame while there is a victim to be moved to it. -/
def SwapExhausted (krnl : Krnl) : Prop :=
  2 ≤ krnl.mm.fifoPgn.length ∧ krnl.activeMswp.freeFpList = []

instance (krnl : Krnl) : Decidable (SwapExhausted krnl) :=
  inferInstanceAs (Decidable (2 ≤ krnl.mm.fifoPgn.length ∧ krnl.activeMswp.freeFpList = []))

/-- The kernel without the last page of its FIFO. -/
def Krnl.dropVictim (krnl : Krnl) : Krnl :=
  { krnl with mm := { krnl.mm with fifoPgn := krnl.mm.fifoPgn.dropLast } }

theorem dropVictim_ne {krnl : Krnl} (h : krnl.mm.fifoPgn ≠ []) : krnl.dropVictim ≠ krnl := by
  intro heq
  have hdrop : krnl.dropVictim.mm.fifoPgn.length = krnl.mm.fifoPgn.length - 1 :=
    List.length_dropLast
  have hpos : 0 < krnl.mm.fifoPgn.length := List.length_pos_iff.mpr h
  rw [heq] at hdrop
  omega

/-- A fault that finds a victim and no swap frame has lost the victim. -/
theorem pgGetpage_dropsVictim {krnl : Krnl} (h : SwapExhausted krnl) (pgn : BitVec 32) :
    pgGetpage krnl pgn = .ok (none, krnl.dropVictim) := by
  obtain ⟨⟨v, rest, hvictim⟩, hfree⟩ := h.imp_left (two_le_length_iff _).mp
  have hrest : rest = krnl.mm.fifoPgn.dropLast := (findVictim_eq_some hvictim).2
  rw [pgGetpage_eq, hvictim, (Memphy.getFreefp_eq_none_iff _).mpr hfree, hrest]
  rfl

/-- Where there is no page at all, nothing was taken yet. -/
theorem pgGetpage_fails {krnl krnl' : Krnl} {pgn : BitVec 32} (h : ¬ SwapExhausted krnl)
    (hfail : pgGetpage krnl pgn = .ok (none, krnl')) : krnl' = krnl := by
  rw [pgGetpage_eq] at hfail
  cases hvictim : findVictim krnl.mm.fifoPgn with
  | error e =>
    rw [hvictim] at hfail
    cases hfail
  | ok victim =>
    rw [hvictim] at hfail
    cases victim with
    | none =>
      cases hfail
      rfl
    | some victim =>
      have hlen := (two_le_length_iff _).mpr ⟨victim.1, victim.2, hvictim⟩
      have hframe : krnl.activeMswp.getFreefp ≠ none := fun hnone =>
        h ⟨hlen, (Memphy.getFreefp_eq_none_iff _).mp hnone⟩
      obtain ⟨frame, hframe⟩ := Option.ne_none_iff_exists'.mp hframe
      rw [hframe] at hfail
      cases hfail

/-- A page fault that fails changes nothing, unless the swap device is exhausted. -/
theorem failsClean_iff (k : KrnlRam) (pgn : BitVec 32) :
    FailsClean k pgn ↔ ¬ SwapExhausted k.krnl := by
  constructor
  · intro hclean hswap
    have hcall : k.pgGetpage pgn = .ok (none, { k with krnl := k.krnl.dropVictim }) := by
      unfold KrnlRam.pgGetpage
      rw [pgGetpage_dropsVictim hswap]
      rfl
    have hpages : k.krnl.mm.fifoPgn ≠ [] := List.length_pos_iff.mp (by have := hswap.1; omega)
    exact dropVictim_ne hpages (congrArg KrnlRam.krnl (hclean _ hcall))
  · intro hswap k' hfail
    obtain ⟨⟨fpn, krnl'⟩, hcall, heq⟩ := map_eq_ok.mp hfail
    cases heq
    rw [pgGetpage_fails hswap hcall]

/-- Two pages and no swap frame: the call for page 3 returns -1, and page 1, the
first that was listed, is gone. -/
theorem not_failsClean_noSwap :
    ¬ FailsClean ⟨{ bareKrnl with mm := { bareKrnl.mm with fifoPgn := [2, 1] } }, ⟨[5]⟩⟩ 3 := by
  intro hclean
  have hcall := hclean _ rfl
  have hpages := congrArg (fun k : KrnlRam => k.krnl.mm.fifoPgn) hcall
  cases hpages

end Libmem

end SimpleOs
