import SimpleOs.FrameList
import SimpleOs.MemphyIo

/-!
# Initialising a device

`init_memphy` allocates the storage of a device and has `MEMPHY_format` build the
list of its frames. The size becomes an `int` on the way. `MEMPHY_format` links
the first node in the round that makes the second one, and does nothing for a
size below one page; its return value is dropped. So the list of a device of one
frame ends in what `malloc` left in the node, and the list of an empty device is
what the structure held before.

Results:
1. `exact_iff_of_lt`: for sizes that fit an `int`, from which memory the list is
   that of the frames.
2. `initMemphy_exact_iff`: for which sizes it is, whatever the memory held.
-/

namespace SimpleOs

namespace InitMemphy

open LinkedList FrameList

/-- `struct memphy_struct`: the bytes, and the free frames with the heap they lie
in. -/
structure Device where
  dev : MemphyDev
  frames : State

/-- The memory before the call. -/
structure Raw where
  /-- What `malloc` leaves in `fp_next` of the first node. -/
  fpNext : Option ℕ
  /-- What the structure holds in `cursor`. -/
  cursor : ℤ
  /-- The heap, and what the structure holds in `free_fp_list`. -/
  frames : State
  bounded : frames.heap.Bounded
  /-- Whether `malloc` finds room for the storage. -/
  found : Bool

/-- `init_memphy`. -/
def initMemphy (malloc : Malloc Addr) (raw : Raw) (maxSize : Addr) (randomflg : ℤ) :
    Except Fault (ℤ × Device) :=
  -- `memset` follows the null pointer, unless there is no byte to set.
  if raw.found = false ∧ maxSize ≠ 0 then .error .nullDeref
  else do
    let (_, frames) ← memphyFormat malloc raw.fpNext (maxSize.setWidth 32) 256 raw.frames
    return (0, ⟨.initMemphy maxSize randomflg raw.cursor, frames⟩)

/-- The device has the frames 0, 1, ... of a storage of `maxSize` bytes, in this
order and each once, and they lie in its storage. -/
structure ExactFrames (maxSize : Addr) (d : Device) : Prop where
  list : ∃ cells, Linked d.frames.heap d.frames.freeFpList cells ∧
    cells.map Prod.snd = framesFrom 0 (maxSize.toNat / 256)
  inside : ∀ fpn ∈ framesFrom 0 (maxSize.toNat / 256),
    (fpn.toNat + 1) * 256 ≤ d.dev.storage.length

/-- If `init_memphy` returns 0, the device has exactly its frames. -/
def Exact (malloc : Malloc Addr) (raw : Raw) (maxSize : Addr) (randomflg : ℤ) : Prop :=
  ∀ d, initMemphy malloc raw maxSize randomflg = .ok (0, d) → ExactFrames maxSize d

/-! ## The number of frames -/

theorem numfp_of_lt {maxSize : Addr} (h : maxSize.toNat < 2 ^ 31) :
    numfp (maxSize.setWidth 32) 256 = (maxSize.toNat / 256 : ℕ) := by
  have hnat : (maxSize.setWidth 32).toNat = maxSize.toNat := by
    rw [BitVec.toNat_setWidth]
    exact Nat.mod_eq_of_lt (h.trans (by decide))
  have hint : (maxSize.setWidth 32).toInt = maxSize.toNat := by
    rw [BitVec.toInt_eq_toNat_of_lt (by omega), hnat]
  have hpage : (256 : BitVec 32).toInt = 256 := by decide
  unfold numfp
  rw [hint, hpage]
  exact Int.ofNat_tdiv maxSize.toNat 256

/-- An `int` has less than 2^23 pages. -/
theorem numfp_lt (maxsz : BitVec 32) : numfp maxsz 256 < 2 ^ 23 := by
  have hpage : (256 : BitVec 32).toInt = 256 := by decide
  have hlt : maxsz.toInt < 2 ^ 31 := BitVec.toInt_lt
  unfold numfp
  rw [hpage]
  exact (Int.tdiv_le_tdiv (by decide) (Int.le_sub_one_of_lt hlt)).trans_lt (by decide)

/-- The frames of the storage lie in it. -/
theorem inside_framesFrom (maxSize : Addr) {fpn : Addr}
    (h : fpn ∈ framesFrom 0 (maxSize.toNat / 256)) : (fpn.toNat + 1) * 256 ≤ maxSize.toNat := by
  have hsize : maxSize.toNat < 2 ^ 64 := maxSize.isLt
  have hlt := (mem_framesFrom (by omega) fpn).mp h
  omega

/-! ## The three kinds of devices -/

section Kinds

variable {malloc : Malloc Addr} {fpNext : Option ℕ} {maxsz pagesz : BitVec 32} {s : State}

/-- No frame: the list stays what it was. -/
theorem memphyFormat_empty (h : numfp maxsz pagesz ≤ 0) :
    memphyFormat malloc fpNext maxsz pagesz s = .ok (-1, s) := by
  unfold memphyFormat
  rw [if_pos h]

/-- One frame: its node is not linked. -/
theorem memphyFormat_one (h : numfp maxsz pagesz = 1) :
    memphyFormat malloc fpNext maxsz pagesz s =
      .ok (0, ⟨Function.update s.heap (malloc.addr s.heap) (some ⟨0, fpNext⟩),
        some (malloc.addr s.heap)⟩) := by
  unfold memphyFormat
  rw [h]
  rfl

end Kinds

/-- The call, as far as `malloc` finds the storage: what `MEMPHY_format` makes of
the free frames. -/
theorem initMemphy_eq_ok {malloc : Malloc Addr} {raw : Raw} {maxSize : Addr} {val : ℤ}
    {frames : State} (randomflg : ℤ) (hfound : raw.found = true)
    (hformat : memphyFormat malloc raw.fpNext (maxSize.setWidth 32) 256 raw.frames =
      .ok (val, frames)) :
    initMemphy malloc raw maxSize randomflg =
      .ok (0, ⟨.initMemphy maxSize randomflg raw.cursor, frames⟩) := by
  unfold initMemphy
  rw [if_neg (by simp [hfound]), hformat]
  rfl

/-- The device has exactly its frames if the list is right. -/
theorem exact_iff {malloc : Malloc Addr} {raw : Raw} {maxSize : Addr} {randomflg val : ℤ}
    {frames : State} (hfound : raw.found = true)
    (hformat : memphyFormat malloc raw.fpNext (maxSize.setWidth 32) 256 raw.frames =
      .ok (val, frames)) :
    Exact malloc raw maxSize randomflg ↔
      ∃ cells, Linked frames.heap frames.freeFpList cells ∧
        cells.map Prod.snd = framesFrom 0 (maxSize.toNat / 256) := by
  have hcall := initMemphy_eq_ok randomflg hfound hformat
  constructor
  · intro hexact
    exact (hexact _ hcall).list
  · intro hlist d hd
    rw [hcall] at hd
    cases hd
    refine ⟨hlist, fun fpn hmem => ?_⟩
    show _ ≤ (List.replicate maxSize.toNat (0 : BitVec 8)).length
    rw [List.length_replicate]
    exact inside_framesFrom maxSize hmem

section Sizes

variable (malloc : Malloc Addr) {raw : Raw} {maxSize : Addr} (randomflg : ℤ)

/-- A size below one page: the list is empty if the structure held a null
pointer. -/
theorem exact_iff_of_empty (hfound : raw.found = true) (h : maxSize.toNat < 256) :
    Exact malloc raw maxSize randomflg ↔ raw.frames.freeFpList = none := by
  have hzero : maxSize.toNat / 256 = 0 := Nat.div_eq_of_lt h
  have hempty : numfp (maxSize.setWidth 32) 256 ≤ 0 := by
    rw [numfp_of_lt (h.trans (by decide)), hzero]
    rfl
  rw [exact_iff hfound (memphyFormat_empty hempty), hzero]
  exact exists_linked_nil_iff

/-- One page: the list ends behind its node if the node held a null pointer. -/
theorem exact_iff_of_one (hfound : raw.found = true) (h : maxSize.toNat / 256 = 1) :
    Exact malloc raw maxSize randomflg ↔ raw.fpNext = none := by
  have hone : numfp (maxSize.setWidth 32) 256 = 1 := by
    rw [numfp_of_lt (by omega), h]
    rfl
  have hnode : Function.update raw.frames.heap (malloc.addr raw.frames.heap)
      (some ⟨0, raw.fpNext⟩) (malloc.addr raw.frames.heap) = some ⟨0, raw.fpNext⟩ :=
    Function.update_self ..
  rw [exact_iff hfound (memphyFormat_one hone), h]
  exact exists_linked_singleton_iff hnode

/-- Two pages or more, up to what an `int` holds. -/
theorem exact_of_two (hfound : raw.found = true) (htwo : 512 ≤ maxSize.toNat)
    (h : maxSize.toNat < 2 ^ 31) : Exact malloc raw maxSize randomflg := by
  have hnum := numfp_of_lt h
  have hN : 2 ≤ numfp (maxSize.setWidth 32) 256 := by
    rw [hnum]
    omega
  obtain ⟨frames, hformat, -, hholds⟩ :=
    @memphyFormat_holds malloc raw.fpNext _ _ raw.frames raw.bounded hN
  rw [exact_iff hfound hformat]
  rw [hnum] at hholds
  exact hholds

/-- A size that fits an `int`: from two pages on the list is right, and below
that if the memory happened to hold a null pointer in the right place. -/
theorem exact_iff_of_lt (hfound : raw.found = true) (h : maxSize.toNat < 2 ^ 31) :
    Exact malloc raw maxSize randomflg ↔
      512 ≤ maxSize.toNat ∨ maxSize.toNat / 256 = 1 ∧ raw.fpNext = none ∨
        maxSize.toNat < 256 ∧ raw.frames.freeFpList = none := by
  rcases Nat.lt_or_ge maxSize.toNat 256 with hzero | hpos
  · have hdiv : maxSize.toNat / 256 ≠ 1 := by rw [Nat.div_eq_of_lt hzero]; decide
    have htwo : ¬ 512 ≤ maxSize.toNat := Nat.not_le_of_lt (hzero.trans (by decide))
    rw [exact_iff_of_empty malloc randomflg hfound hzero]
    simp [htwo, hdiv, hzero]
  · rcases Nat.lt_or_ge maxSize.toNat 512 with hlt | htwo
    · have hdiv : maxSize.toNat / 256 = 1 := by omega
      rw [exact_iff_of_one malloc randomflg hfound hdiv]
      simp [hdiv, Nat.not_le.mpr hlt, Nat.not_lt.mpr hpos]
    · exact ⟨fun _ => .inl htwo, fun _ => exact_of_two malloc randomflg hfound htwo h⟩

/-- An empty heap and null pointers everywhere. -/
def Raw.blank : Raw where
  fpNext := none
  cursor := 0
  frames := ⟨fun _ => none, none⟩
  bounded := ⟨0, fun _ _ => rfl⟩
  found := true

/-- A blank heap, and a structure that holds an address. -/
def Raw.dirtyStruct : Raw :=
  { Raw.blank with
    frames := ⟨fun _ => none, some 7⟩
    bounded := ⟨0, fun _ _ => rfl⟩ }

/-- A blank heap, and a first node that holds an address. -/
def Raw.dirtyNode : Raw :=
  { Raw.blank with fpNext := some 7 }

/-- From blank memory, the list has as many frames as `MEMPHY_format` counts. -/
theorem memphyFormat_blank (maxsz : BitVec 32) :
    ∃ val frames cells, memphyFormat malloc none maxsz 256 Raw.blank.frames = .ok (val, frames) ∧
      Linked frames.heap frames.freeFpList cells ∧ cells.length = (numfp maxsz 256).toNat := by
  rcases lt_or_ge (numfp maxsz 256) 2 with hfew | htwo
  · rcases lt_or_ge (numfp maxsz 256) 1 with hnone | hone
    · have hempty : numfp maxsz 256 ≤ 0 := Int.le_of_lt_add_one hnone
      refine ⟨_, _, [], memphyFormat_empty hempty, linked_nil_iff.mpr rfl, ?_⟩
      exact (Int.toNat_of_nonpos hempty).symm
    · have hnum : numfp maxsz 256 = 1 := le_antisymm (Int.le_of_lt_add_one hfew) hone
      refine ⟨_, _, [(malloc.addr fun _ => none, 0)], memphyFormat_one hnum,
        linked_singleton_iff.mpr ⟨rfl, Function.update_self ..⟩, ?_⟩
      rw [hnum]
      rfl
  · obtain ⟨frames, hformat, -, cells, hlinked, hcells⟩ :=
      @memphyFormat_holds malloc none _ _ Raw.blank.frames Raw.blank.bounded htwo
    refine ⟨_, frames, cells, hformat, hlinked, ?_⟩
    rw [← List.length_map Prod.snd, hcells, length_framesFrom]

/-- A size of 2 GiB or more has more frames than an `int` can count. -/
theorem not_exact_of_ge (h : 2 ^ 31 ≤ maxSize.toNat) :
    ¬ Exact malloc .blank maxSize randomflg := by
  obtain ⟨val, frames, cells, hformat, hlinked, hlen⟩ :=
    memphyFormat_blank malloc (maxSize.setWidth 32)
  rw [exact_iff rfl hformat]
  rintro ⟨cells', hlinked', hcells'⟩
  have hlen' : cells'.length = maxSize.toNat / 256 := by
    rw [← List.length_map Prod.snd, hcells', length_framesFrom]
  have hcount := numfp_lt (maxSize.setWidth 32)
  rw [hlinked'.chain.unique hlinked.chain, hlen] at hlen'
  omega

/-- Whatever the memory held, the device has exactly its frames: this is so
exactly for the sizes of two pages or more that fit an `int`. -/
theorem initMemphy_exact_iff :
    (∀ raw : Raw, Exact malloc raw maxSize randomflg) ↔
      512 ≤ maxSize.toNat ∧ maxSize.toNat < 2 ^ 31 := by
  constructor
  · intro hall
    have hlt : maxSize.toNat < 2 ^ 31 :=
      Nat.lt_of_not_le fun hge => not_exact_of_ge malloc randomflg hge (hall .blank)
    refine ⟨?_, hlt⟩
    rcases (exact_iff_of_lt malloc randomflg rfl hlt).mp (hall .dirtyNode) with htwo | hnode | hzero
    · exact htwo
    · cases hnode.2
    · rcases (exact_iff_of_lt malloc randomflg rfl hlt).mp (hall .dirtyStruct) with
        htwo | hnode | hstruct
      · exact htwo
      · omega
      · cases hstruct.2
  · rintro ⟨htwo, hlt⟩ raw
    cases hfound : raw.found with
    | true => exact exact_of_two malloc randomflg hfound htwo hlt
    | false =>
      intro d hd
      have hne : maxSize ≠ 0 := by
        rintro rfl
        exact absurd htwo (by decide)
      unfold initMemphy at hd
      rw [if_pos ⟨hfound, hne⟩] at hd
      cases hd

end Sizes

/-- A swap device that is not used, a device of one frame, and one of 2 GiB. -/
theorem not_exact_configurable :
    ¬ Exact Malloc.least .dirtyStruct 0 1 ∧ ¬ Exact Malloc.least .dirtyNode 256 1 ∧
      ¬ Exact Malloc.least .blank 0x80000000 1 := by
  refine ⟨?_, ?_, not_exact_of_ge Malloc.least 1 (by decide)⟩
  · rw [exact_iff_of_empty Malloc.least 1 rfl (by decide)]
    exact Option.some_ne_none 7
  · rw [exact_iff_of_one Malloc.least 1 rfl (by decide)]
    exact Option.some_ne_none 7

end InitMemphy

end SimpleOs
