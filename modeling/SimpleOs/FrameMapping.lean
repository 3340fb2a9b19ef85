import SimpleOs.InitMemphy
import SimpleOs.InitPte

/-!
# Frames and page-table entries

`MEMPHY_get_freefp` hands out the frames 0, 1, ... of the RAM, as many as its size
has. `init_pte` refuses frame 0 and keeps 13 bits of a frame number. So the first
frame that is handed out cannot be mapped, and in a RAM of more than 2 MiB neither
can the frames from 2^13 on, which read back as others.

Results:
1. `handedOut_iff`: the frames that a RAM hands out.
2. `mappable_iff`: the frames that an entry reads back, and which two frames
   share an entry.
-/

namespace SimpleOs

namespace FrameMapping

open LinkedList FrameList Pte

/-- Some call of `MEMPHY_get_freefp` on a RAM of `maxSize` bytes returns `fpn`. -/
def HandedOut (malloc : Malloc Addr) (raw : Option ℕ) (maxSize fpn : Addr) : Prop :=
  ∃ l mem, (history malloc raw (maxSize.setWidth 32) 256).Reachable l ∧
    memphyGetFreefp l.mem = .ok (some fpn, mem)

/-- The arguments of `init_pte` that map the frame `fpn`. -/
def mapArgs (fpn : Addr) : InitArgs where
  pre := 1
  fpn := fpn
  drt := 0
  swp := 0
  swptyp := 0
  swpoff := 0

/-- The frame can be mapped: `init_pte` returns 0 and the entry reads it back. -/
def Mappable (pte : BitVec 64) (fpn : Addr) : Prop :=
  (initPte pte (mapArgs fpn)).1 = 0 ∧ fpn64 (initPte pte (mapArgs fpn)).2 = fpn

/-! ## The frames of a RAM -/

section Ram

variable {malloc : Malloc Addr} {raw : Option ℕ} {maxsz pagesz : BitVec 32}

/-- A new device of two frames or more, before any call. -/
theorem reachable_formatted (hN : 2 ≤ numfp maxsz pagesz) :
    ∃ l, (history malloc raw maxsz pagesz).Reachable l ∧
      Holds l.mem ⟨framesFrom 0 (numfp maxsz pagesz).toNat⟩ := by
  have hfin : Heap.Bounded (fun _ => none : Heap Addr) := ⟨0, fun _ _ => rfl⟩
  obtain ⟨s, hformat, hholds⟩ :=
    @memphyFormat_holds malloc raw maxsz pagesz ⟨fun _ => none, none⟩ hfin hN
  exact ⟨⟨s, []⟩, .init ⟨rfl, _, hfin, hformat⟩, hholds⟩

/-- After `k` calls of `MEMPHY_get_freefp` the first `k` frames are handed out. -/
theorem reachable_drop (hN : 2 ≤ numfp maxsz pagesz) {k : ℕ}
    (hk : k ≤ (numfp maxsz pagesz).toNat) :
    ∃ l, (history malloc raw maxsz pagesz).Reachable l ∧
      Holds l.mem ⟨(framesFrom 0 (numfp maxsz pagesz).toNat).drop k⟩ := by
  induction k with
  | zero => exact reachable_formatted hN
  | succ k ih =>
    obtain ⟨l, hl, hholds⟩ := ih (Nat.le_of_succ_le hk)
    have hlen : k < (framesFrom 0 (numfp maxsz pagesz).toNat).length := by
      rwa [length_framesFrom]
    rw [List.drop_eq_getElem_cons hlen] at hholds
    obtain ⟨s, hget, hrest⟩ := memphyGetFreefp_refines hholds
    exact ⟨⟨s, _⟩, hl.step (a := Call.getFreefp) ⟨_, s, hget, rfl⟩, hrest⟩

theorem memphyGetFreefp_of_node {s : State} {fp : ℕ} {node : Node Addr}
    (hhead : s.freeFpList = some fp) (hnode : s.heap fp = some node) :
    memphyGetFreefp s =
      .ok (some node.val, ⟨Function.update s.heap fp none, node.next⟩) := by
  unfold memphyGetFreefp
  rw [hhead]
  dsimp only
  rw [hnode]

end Ram

/-- A RAM of two frames or more hands out the frames it has. -/
theorem handedOut_iff (malloc : Malloc Addr) (raw : Option ℕ) {maxSize : Addr}
    (hN : 2 ≤ numfp (maxSize.setWidth 32) 256) (fpn : Addr) :
    HandedOut malloc raw maxSize fpn ↔ fpn.toNat < (numfp (maxSize.setWidth 32) 256).toNat := by
  have hle := numfp_le (maxSize.setWidth 32) 256
  constructor
  · rintro ⟨l, mem, hl, hget⟩
    obtain ⟨mp, hholds, hperm⟩ := accounted_of_reachable hN hl
    have href := memphyGetFreefp_refines hholds
    unfold Memphy.getFreefp at href
    cases hfree : mp.freeFpList with
    | nil =>
      rw [hfree] at href
      cases href.symm.trans hget
    | cons fpn' fps =>
      rw [hfree] at href
      obtain ⟨s', hget', -⟩ := href
      cases hget'.symm.trans hget
      refine (mem_framesFrom hle fpn).mp (hperm.subset (List.mem_append_left _ ?_))
      rw [hfree]
      exact List.mem_cons_self ..
  · intro hlt
    obtain ⟨l, hl, hholds⟩ := @reachable_drop malloc raw _ _ hN fpn.toNat hlt.le
    rw [List.drop_eq_getElem_cons (by rwa [length_framesFrom])] at hholds
    obtain ⟨s, hget, -⟩ := memphyGetFreefp_refines hholds
    refine ⟨l, s, hl, hget.trans ?_⟩
    simp [framesFrom]

/-- The first frame of a RAM is frame 0. -/
theorem handedOut_zero (malloc : Malloc Addr) (raw : Option ℕ) {maxSize : Addr}
    (hN : 1 ≤ numfp (maxSize.setWidth 32) 256) : HandedOut malloc raw maxSize 0 := by
  rcases hN.lt_or_eq with htwo | hone
  · refine (handedOut_iff malloc raw htwo 0).mpr ?_
    show 0 < (numfp (maxSize.setWidth 32) 256).toNat
    omega
  · have hfin : Heap.Bounded (fun _ => none : Heap Addr) := ⟨0, fun _ _ => rfl⟩
    have hformat := @InitMemphy.memphyFormat_one malloc raw _ _ ⟨fun _ => none, none⟩ hone.symm
    exact ⟨⟨_, []⟩, _, .init ⟨rfl, _, hfin, hformat⟩,
      @memphyGetFreefp_of_node _ _ ⟨0, raw⟩ rfl (Function.update_self ..)⟩

/-! ## Their entries -/

theorem mapArgs_pre (fpn : Addr) : (mapArgs fpn).pre ≠ 0 := by
  show (1 : BitVec 32) ≠ 0
  decide

theorem initPte_zero (pte : BitVec 64) : initPte pte (mapArgs 0) = (-1, pte) := rfl

theorem fpn64_initPte (pte : BitVec 64) {fpn : Addr} (h : fpn ≠ 0) :
    (fpn64 (initPte pte (mapArgs fpn)).2).toNat = fpn.toNat % 2 ^ 13 :=
  (online_reads pte (mapArgs_pre fpn) rfl h).2.2.2

theorem mappable_iff (pte : BitVec 64) (fpn : Addr) :
    Mappable pte fpn ↔ 0 < fpn.toNat ∧ fpn.toNat < 2 ^ 13 := by
  rcases eq_or_ne fpn 0 with rfl | hne
  · refine iff_of_false (fun hmap => ?_) (fun hpos => absurd hpos.1 (by decide))
    have hret := hmap.1
    rw [initPte_zero] at hret
    cases hret
  · have hpos : 0 < fpn.toNat := Nat.pos_of_ne_zero fun hzero =>
      hne (BitVec.eq_of_toNat_eq hzero)
    have hread := fpn64_initPte pte hne
    constructor
    · intro hmap
      rw [hmap.2] at hread
      exact ⟨hpos, hread ▸ Nat.mod_lt _ (by decide)⟩
    · rintro ⟨-, hlt⟩
      refine ⟨((setWidth_initPte pte (mapArgs fpn)).2.1 (mapArgs_pre fpn) rfl hne).1, ?_⟩
      apply BitVec.eq_of_toNat_eq
      rw [hread, Nat.mod_eq_of_lt hlt]

/-- The mask keeps 13 bits of a frame number. -/
theorem and_fpnMask (fpn : Addr) :
    ((fpn <<< 0) &&& pagingPteFpnMask.setWidth 64).toNat = fpn.toNat % 2 ^ 13 := by
  have hmask : (pagingPteFpnMask.setWidth 64).toNat = 2 ^ 13 - 1 := by decide
  rw [BitVec.shiftLeft_zero, BitVec.toNat_and, hmask, Nat.and_two_pow_sub_one_eq_mod]

/-- Two frames share an entry if the bits that are kept agree. -/
theorem initPte_eq_iff (pte : BitVec 64) {fpn fpn' : Addr} (h : fpn ≠ 0) (h' : fpn' ≠ 0) :
    initPte pte (mapArgs fpn) = initPte pte (mapArgs fpn') ↔
      fpn.toNat % 2 ^ 13 = fpn'.toNat % 2 ^ 13 := by
  constructor
  · intro heq
    rw [← fpn64_initPte pte h, heq, fpn64_initPte pte h']
  · intro heq
    have hfield : (fpn <<< 0) &&& pagingPteFpnMask.setWidth 64 =
        (fpn' <<< 0) &&& pagingPteFpnMask.setWidth 64 := by
      apply BitVec.eq_of_toNat_eq
      rw [and_fpnMask, and_fpnMask, heq]
    rw [initPte_online pte (mapArgs_pre fpn) rfl h, initPte_online pte (mapArgs_pre fpn') rfl h']
    unfold setval64
    exact congrArg (fun field => (0, _ ||| field)) hfield

/-- Of the frames that a RAM hands out, those from 1 to 2^13 - 1 can be mapped,
and no two of them share an entry. A RAM with a frame hands out frame 0; one of
more than 2 MiB hands out frames that share the entry of another one. -/
theorem frames_mappable_iff (malloc : Malloc Addr) (raw : Option ℕ) (maxSize : Addr) :
    (∀ fpn, HandedOut malloc raw maxSize fpn → ∀ pte,
      (Mappable pte fpn ↔ 0 < fpn.toNat ∧ fpn.toNat < 2 ^ 13)) ∧
    (∀ pte fpn fpn', fpn ≠ 0 → fpn' ≠ 0 →
      (initPte pte (mapArgs fpn) = initPte pte (mapArgs fpn') ↔
        fpn.toNat % 2 ^ 13 = fpn'.toNat % 2 ^ 13)) ∧
    (1 ≤ numfp (maxSize.setWidth 32) 256 → HandedOut malloc raw maxSize 0) ∧
    (2 ≤ numfp (maxSize.setWidth 32) 256 → ∀ fpn, (HandedOut malloc raw maxSize fpn ↔
      fpn.toNat < (numfp (maxSize.setWidth 32) 256).toNat)) :=
  ⟨fun fpn _ pte => mappable_iff pte fpn, fun pte _ _ => initPte_eq_iff pte,
    handedOut_zero malloc raw, handedOut_iff malloc raw⟩

/-- A RAM of 4 MiB hands out frame 0, which is refused, and frame 2^13 + 1, which
reads back as frame 1. -/
theorem not_mappable_handedOut :
    (HandedOut Malloc.least none 0x400000 0 ∧ ¬ Mappable 0 0) ∧
    HandedOut Malloc.least none 0x400000 0x2001 ∧ ¬ Mappable 0 0x2001 := by
  have hN : 2 ≤ numfp ((0x400000 : Addr).setWidth 32) 256 := by decide
  refine ⟨⟨(handedOut_iff _ _ hN 0).mpr (by decide), fun hmap => ?_⟩,
    (handedOut_iff _ _ hN 0x2001).mpr (by decide), fun hmap => ?_⟩
  · exact absurd ((mappable_iff 0 0).mp hmap).1 (by decide)
  · exact absurd ((mappable_iff 0 0x2001).mp hmap).2 (by decide)

end FrameMapping

end SimpleOs
