import SimpleOs.MemphyIo
import SimpleOs.Pte
import SimpleOs.Lib.Paged

/-!
# Copying pages between devices

`__swap_cp_page` copies a page byte by byte, with a read and a write of a device
in each round. The source and the destination may be the same device, and the
same page.

Results:
1. `swapCpPage_refines`: one call does to the bytes of all devices what the
   assignment of one page does.
2. `foldlM_swapCpPage`: so does a sequence of calls, without an access outside a
   device; a page that goes out and comes back is as it was.
-/

namespace SimpleOs

namespace MemphyDev

open Paged Pte

variable {ι : Type} [DecidableEq ι]

/-- A call of `__swap_cp_page`; the devices are given by their names. -/
structure CpCall (ι : Type) where
  mpsrc : ι
  srcfpn : Addr
  mpdst : ι
  dstfpn : Addr
  deriving DecidableEq

/-- The address of the cell `cellidx` of the frame `fpn`. -/
def cellAddr (fpn : Addr) (cellidx : ℕ) : Addr :=
  fpn * BitVec.ofNat 64 pagingPagesz + BitVec.ofNat 64 cellidx

/-- One round of the loop of `__swap_cp_page`. `data` is what the local of that
name holds before the read. -/
def swapCpCell (call : CpCall ι) (data : ℕ → BitVec 8) (devs : ι → MemphyDev) (cellidx : ℕ) :
    Except Fault (ι → MemphyDev) := do
  let addrsrc := cellAddr call.srcfpn cellidx
  let addrdst := cellAddr call.dstfpn cellidx
  let (_, data, mp) ← (devs call.mpsrc).read addrsrc (data cellidx)
  let devs := Function.update devs call.mpsrc mp
  let (_, mp) ← (devs call.mpdst).write addrdst data
  return Function.update devs call.mpdst mp

/-- `__swap_cp_page`. -/
def swapCpPage (data : ℕ → BitVec 8) (devs : ι → MemphyDev) (call : CpCall ι) :
    Except Fault (ι → MemphyDev) :=
  (List.range pagingPagesz).foldlM (swapCpCell call data) devs

/-- `__mm_swap_page`, with the devices of the caller. -/
def mmSwapPage (data : ℕ → BitVec 8) (devs : ι → MemphyDev) (mram activeMswp : ι)
    (vicfpn swpfpn : Addr) : Except Fault (ι → MemphyDev) :=
  swapCpPage data devs ⟨mram, vicfpn, activeMswp, swpfpn⟩

/-- The bytes of all devices, `none` behind the end of a device. -/
def contents (devs : ι → MemphyDev) (i : ι) (a : ℕ) : Option (BitVec 8) :=
  (devs i).storage[a]?

/-- The call as a copy of a page. -/
def CpCall.copy (call : CpCall ι) : Copy ι where
  src := ⟨call.mpsrc, call.srcfpn.toNat⟩
  dst := ⟨call.mpdst, call.dstfpn.toNat⟩

/-- Both frames are frames of their devices. -/
def CpCall.Valid (devs : ι → MemphyDev) (call : CpCall ι) : Prop :=
  (call.srcfpn.toNat : ℤ) < (devs call.mpsrc).maxsz.tdiv pagingPagesz ∧
  (call.dstfpn.toNat : ℤ) < (devs call.mpdst).maxsz.tdiv pagingPagesz

/-- Nothing but bytes differs, and the devices are random access. -/
def SameShape (devs devs' : ι → MemphyDev) : Prop :=
  ∀ i, (devs' i).rdmflg ≠ 0 ∧ (devs' i).maxsz = (devs i).maxsz

omit [DecidableEq ι] in
theorem CpCall.Valid.of_sameShape {devs devs' : ι → MemphyDev} {call : CpCall ι}
    (h : call.Valid devs) (hshape : SameShape devs devs') : call.Valid devs' := by
  unfold CpCall.Valid
  rw [(hshape call.mpsrc).2, (hshape call.mpdst).2]
  exact h

/-- The bytes of a frame lie inside the device, and their addresses do not wrap. -/
theorem toNat_cell {mp : MemphyDev} {fpn : Addr}
    (h : (fpn.toNat : ℤ) < mp.maxsz.tdiv pagingPagesz) {k : ℕ} (hk : k < pagingPagesz) :
    (cellAddr fpn k).toNat = fpn.toNat * pagingPagesz + k ∧
    (cellAddr fpn k).toNat < mp.storage.length := by
  have hlt := mp.maxsz_lt
  have hle := mp.maxsz_le
  unfold cellAddr pagingPagesz at *
  have hnonneg : 0 ≤ mp.maxsz := by
    by_contra hneg
    have hdiv : 0 ≤ (-mp.maxsz).tdiv (256 : ℕ) :=
      Int.tdiv_nonneg (by omega) (Int.natCast_nonneg _)
    rw [Int.neg_tdiv] at hdiv
    omega
  rw [Int.tdiv_eq_ediv_of_nonneg hnonneg] at h
  have hcell : (fpn.toNat : ℤ) * 256 + k < mp.maxsz := by omega
  have haddr : (fpn * BitVec.ofNat 64 256 + BitVec.ofNat 64 k).toNat = fpn.toNat * 256 + k := by
    rw [BitVec.toNat_add, BitVec.toNat_mul, BitVec.toNat_ofNat, BitVec.toNat_ofNat]
    omega
  exact ⟨haddr, by omega⟩

/-- One round copies one byte. -/
theorem swapCpCell_ok {devs : ι → MemphyDev} (hrdm : ∀ i, (devs i).rdmflg ≠ 0)
    {call : CpCall ι} (hv : call.Valid devs) (data : ℕ → BitVec 8) {k : ℕ}
    (hk : k < pagingPagesz) :
    ∃ devs', swapCpCell call data devs k = .ok devs' ∧ SameShape devs devs' ∧
      contents devs' = copyCell pagingPagesz call.copy (contents devs) k := by
  obtain ⟨hsrc, hsrcIn⟩ := toNat_cell hv.1 hk
  obtain ⟨hdst, hdstIn⟩ := toNat_cell hv.2 hk
  obtain ⟨v, hbyte⟩ : ∃ v, (devs call.mpsrc).storage[(cellAddr call.srcfpn k).toNat]? = some v :=
    ⟨_, List.getElem?_eq_getElem hsrcIn⟩
  have hread := read_ok (hrdm call.mpsrc) hbyte (data k)
  obtain ⟨mp, hwrite, hstorage, hmaxsz, hflag⟩ := write_ok (hrdm call.mpdst) hdstIn v
  refine ⟨Function.update devs call.mpdst mp, ?_, fun i => ?_, ?_⟩
  · unfold swapCpCell
    dsimp only
    rw [hread, ok_bind]
    dsimp only
    rw [Function.update_eq_self, hwrite]
    rfl
  · rcases eq_or_ne i call.mpdst with rfl | hi
    · rw [Function.update_self]
      exact ⟨hflag ▸ hrdm call.mpdst, hmaxsz⟩
    · rw [Function.update_of_ne hi]
      exact ⟨hrdm i, rfl⟩
  · funext i a
    unfold contents copyCell
    rcases eq_or_ne i call.mpdst with rfl | hi
    · rw [Function.update_self, hstorage, List.getElem?_set]
      by_cases ha : a = call.dstfpn.toNat * pagingPagesz + k
      · rw [if_pos (hdst.trans ha.symm), if_pos hdstIn, if_pos ⟨rfl, ha⟩]
        show some v = (devs call.mpsrc).storage[call.srcfpn.toNat * pagingPagesz + k]?
        rw [← hsrc, hbyte]
      · rw [if_neg fun h => ha (h.symm.trans hdst), if_neg fun h => ha h.2]
    · rw [Function.update_of_ne hi, if_neg fun h => hi h.1]

/-- One call assigns one page. -/
theorem swapCpPage_refines {devs : ι → MemphyDev} (hrdm : ∀ i, (devs i).rdmflg ≠ 0)
    {call : CpCall ι} (hv : call.Valid devs) (data : ℕ → BitVec 8) :
    ∃ devs', swapCpPage data devs call = .ok devs' ∧ SameShape devs devs' ∧
      contents devs' = assignPage pagingPagesz (contents devs) call.copy := by
  have hloop : ∀ n ≤ pagingPagesz, ∃ devs',
      (List.range n).foldlM (swapCpCell call data) devs = .ok devs' ∧ SameShape devs devs' ∧
      contents devs' = (List.range n).foldl (copyCell pagingPagesz call.copy) (contents devs) := by
    intro n hn
    induction n with
    | zero => exact ⟨devs, rfl, fun i => ⟨hrdm i, rfl⟩, rfl⟩
    | succ n ih =>
      obtain ⟨devs₁, hrun, hshape, hcontents⟩ := ih (Nat.le_of_succ_le hn)
      obtain ⟨devs₂, hcell, hshape', hcontents'⟩ :=
        swapCpCell_ok (fun i => (hshape i).1) (hv.of_sameShape hshape) data hn
      refine ⟨devs₂, ?_, fun i => ⟨(hshape' i).1, (hshape' i).2.trans (hshape i).2⟩, ?_⟩
      · rw [List.range_succ, List.foldlM_append, hrun, ok_bind, List.foldlM_cons, hcell]
        rfl
      · rw [List.range_succ, List.foldl_append, hcontents', hcontents]
        rfl
  obtain ⟨devs', hrun, hshape, hcontents⟩ := hloop pagingPagesz le_rfl
  refine ⟨devs', hrun, hshape, ?_⟩
  rw [hcontents, foldl_copyCell _ _ (by decide)]

/-- A sequence of calls assigns one page for each call. -/
theorem foldlM_swapCpPage_refines {devs : ι → MemphyDev} (hrdm : ∀ i, (devs i).rdmflg ≠ 0)
    {calls : List (CpCall ι)} (hv : ∀ call ∈ calls, call.Valid devs) (data : ℕ → BitVec 8) :
    ∃ devs', calls.foldlM (swapCpPage data) devs = .ok devs' ∧ SameShape devs devs' ∧
      contents devs' =
        (calls.map CpCall.copy).foldl (assignPage pagingPagesz) (contents devs) := by
  induction calls generalizing devs with
  | nil => exact ⟨devs, rfl, fun i => ⟨hrdm i, rfl⟩, rfl⟩
  | cons call calls ih =>
    obtain ⟨hcall, hcalls⟩ := List.forall_mem_cons.mp hv
    obtain ⟨devs₁, hpage, hshape, hcontents⟩ := swapCpPage_refines hrdm hcall data
    obtain ⟨devs₂, hrest, hshape', hcontents'⟩ := ih (fun i => (hshape i).1)
      fun call' hmem => (hcalls call' hmem).of_sameShape hshape
    refine ⟨devs₂, ?_, fun i => ⟨(hshape' i).1, (hshape' i).2.trans (hshape i).2⟩, ?_⟩
    · rw [List.foldlM_cons, hpage, ok_bind, hrest]
    · rw [hcontents', hcontents, List.map_cons, List.foldl_cons]

/-- A sequence of calls on random-access devices stays inside the devices and
assigns one page for each call. A page that is copied out and later copied on
from there arrives as it left, if no call in between copies to the place. -/
theorem foldlM_swapCpPage {devs : ι → MemphyDev} (hrdm : ∀ i, (devs i).rdmflg ≠ 0)
    {calls : List (CpCall ι)} (hv : ∀ call ∈ calls, call.Valid devs) (data : ℕ → BitVec 8) :
    ∃ devs', calls.foldlM (swapCpPage data) devs = .ok devs' ∧ SameShape devs devs' ∧
      contents devs' = (calls.map CpCall.copy).foldl (assignPage pagingPagesz) (contents devs) ∧
      ∀ (front mid : List (CpCall ι)) (out back : CpCall ι),
        calls = front ++ (out :: mid ++ [back]) → back.copy.src = out.copy.dst →
        (∀ call ∈ mid, out.copy.dst ≠ call.copy.dst) →
        page pagingPagesz (contents devs') back.copy.dst =
          page pagingPagesz
            ((front.map CpCall.copy).foldl (assignPage pagingPagesz) (contents devs))
            out.copy.src := by
  obtain ⟨devs', hrun, hshape, hcontents⟩ := foldlM_swapCpPage_refines hrdm hv data
  refine ⟨devs', hrun, hshape, hcontents, ?_⟩
  intro front mid out back hcalls hback hkeep
  have hkeep' : ∀ cp ∈ mid.map CpCall.copy, out.copy.dst ≠ cp.dst := by
    intro cp hcp
    obtain ⟨call, hmem, rfl⟩ := List.mem_map.mp hcp
    exact hkeep call hmem
  rw [hcontents, hcalls, List.map_append, List.foldl_append, List.map_append, List.map_cons,
    List.map_cons, List.map_nil, page_out_and_back _ hback hkeep']

/-- RAM of two frames, the first with the byte 65 in every cell, and a swap device of
one. -/
def twoDevices (swap : Bool) : MemphyDev :=
  if swap then initMemphy 256 1 0
  else
    { initMemphy 512 1 0 with
      storage := List.replicate 256 65 ++ List.replicate 256 0
      maxsz_le := by rw [List.length_append, List.length_replicate, List.length_replicate]; rfl }

/-- The page in frame 0 goes out and comes back to frame 1. -/
theorem foldlM_swapCpPage_outAndBack :
    ∃ devs', [(⟨false, 0, true, 0⟩ : CpCall Bool), ⟨true, 0, false, 1⟩].foldlM
        (swapCpPage fun _ => 0) twoDevices = .ok devs' ∧
      page pagingPagesz (contents devs') ⟨false, 1⟩ =
        page pagingPagesz (contents twoDevices) ⟨false, 0⟩ := by
  have hrdm : ∀ i, (twoDevices i).rdmflg ≠ 0 := by
    intro i
    cases i
    all_goals exact (by decide : (1 : ℤ) ≠ 0)
  have hv : ∀ call ∈ [(⟨false, 0, true, 0⟩ : CpCall Bool), ⟨true, 0, false, 1⟩],
      call.Valid twoDevices := by
    intro call hmem
    rcases List.mem_cons.mp hmem with rfl | hmem
    · exact ⟨by decide, by decide⟩
    · cases List.mem_singleton.mp hmem
      exact ⟨by decide, by decide⟩
  obtain ⟨devs', hrun, -, -, hback⟩ := foldlM_swapCpPage hrdm hv fun _ => 0
  exact ⟨devs', hrun, hback [] [] _ _ rfl rfl nofun⟩

end MemphyDev

end SimpleOs
