import SimpleOs.LiveRegions
import SimpleOs.SymbolTable

/-!
# Initialising a memory map

For every process `ld_routine` allocates an `mm_struct` and calls `init_mm`, which
allocates a vm area and a region node. It links the node to the area, but neither
sets the head of the area's list before nor links the area to the map; the symbol
table and the head of the page FIFO stay what `malloc` left there.

Results:
1. `freshMap_iff`: from which memory the map is well formed after the call.
2. `libfree_init_iff`, `findVictim_init_iff`: from which memory the first calls
   are refused.
-/

namespace SimpleOs

namespace InitMm

open LinkedList Libmem MmStruct

/-! ## The structures in memory -/

/-- `struct vm_area_struct`, without `vm_next`. -/
structure VmaFields where
  vmId : BitVec 64
  vmStart : Addr
  vmEnd : Addr
  sbrk : Addr
  vmFreergList : Option ℕ

/-- `struct mm_struct`, without the page directories. -/
structure MmFields where
  mmap : Option ℕ
  symrgtbl : Fin pagingMaxSymtblSz → VmRg
  fifoPgn : Option ℕ

/-- The vm areas, the region nodes and the pages that are allocated, and the
memory map of one process. -/
structure Memory where
  areas : Heap VmaFields
  rgs : Heap VmRg
  pgns : Heap Addr
  mm : MmFields

/-- The memory before the call, with what `malloc` left in the `mm_struct`, in the
new area and in the new region node. -/
structure Raw where
  memory : Memory
  vma : Node VmaFields
  rg : Node VmRg

/-- `init_vm_rg`, in the node that `malloc` returns. -/
def initVmRg (rgnode : Node VmRg) (rgStart rgEnd : Addr) : Node VmRg :=
  { rgnode with val := ⟨rgStart, rgEnd⟩, next := none }

/-- `enlist_vm_rg_node`: the nodes and `*rglist` after the call. -/
def enlistVmRgNode (rgs : Heap VmRg) (rglist : Option ℕ) (rgnode : ℕ) : Heap VmRg × Option ℕ :=
  let node := (rgs rgnode).map fun node => { node with next := rglist }
  (Function.update rgs rgnode node, some rgnode)

section Init

variable (mallocVma : Malloc VmaFields) (mallocRg : Malloc VmRg) (raw : Raw)

/-- The address of the area that `init_mm` allocates. -/
def vma0Addr : ℕ :=
  mallocVma.addr raw.memory.areas

/-- `init_mm`: the return value and the memory after the call. -/
def initMm : ℤ × Memory :=
  let firstRg := mallocRg.addr raw.memory.rgs
  let rgs := Function.update raw.memory.rgs firstRg (some (initVmRg raw.rg 0 0))
  -- `*rglist` is the field of the new area that nothing has set yet.
  let (rgs, vmFreergList) := enlistVmRgNode rgs raw.vma.val.vmFreergList firstRg
  let fields : VmaFields := ⟨0, 0, 0, 0, vmFreergList⟩
  let areas := Function.update raw.memory.areas (vma0Addr mallocVma raw)
    (some { raw.vma with val := fields })
  (0, { raw.memory with areas := areas, rgs := rgs })

end Init

/-- The fields of an area are those of `vma`, and the list that they lead to is
its free list. -/
structure IsArea (rgs : Heap VmRg) (fields : VmaFields) (vma : VmArea) : Prop where
  vmId : fields.vmId = vma.vmId
  vmStart : fields.vmStart = vma.vmStart
  vmEnd : fields.vmEnd = vma.vmEnd
  sbrk : fields.sbrk = vma.sbrk
  vmFreergList : ∃ cells, Linked rgs fields.vmFreergList cells ∧
    cells.map Prod.snd = vma.vmFreergList

/-- The map in memory is `mm`. -/
structure Represents (m : Memory) (mm : MmStruct) : Prop where
  mmap : ∃ cells, Linked m.areas m.mm.mmap cells ∧
    List.Forall₂ (fun cell vma => IsArea m.rgs cell.2 vma) cells mm.mmap
  symrgtbl : m.mm.symrgtbl = mm.symrgtbl
  fifoPgn : Fifo.Holds ⟨m.pgns, m.mm.fifoPgn⟩ mm.fifoPgn

/-- The map holds exactly the area at `vma0`, which has one empty region and nothing
else, no register holds a region and no page is listed. -/
structure WellFormed (m : Memory) (vma0Addr : ℕ) : Prop where
  mmap : ∃ fields, Linked m.areas m.mm.mmap [(vma0Addr, fields)] ∧ IsArea m.rgs fields vma0
  symrgtbl : ∀ r, m.mm.symrgtbl r = ⟨0, 0⟩
  fifoPgn : m.mm.fifoPgn = none

/-- The map is well formed, and the first `libfree` of any register and the first
`find_victim_page` return -1. -/
structure FreshMap (m : Memory) (vma0Addr : ℕ) : Prop extends WellFormed m vma0Addr where
  refused : ∃ mm, Represents m mm ∧
    (∀ activeMswp, ∀ reg : BitVec 32, reg.toNat < pagingMaxSymtblSz →
      libfree ⟨mm, activeMswp⟩ reg = .ok (-1, ⟨mm, activeMswp⟩)) ∧
    Fifo.findVictim mm.fifoPgn = .ok none

/-- The memory held, before the call, what nothing writes: the address of the area
in `mmap`, and null pointers and empty regions elsewhere. -/
structure Clean (raw : Raw) (vma0Addr : ℕ) : Prop where
  mmap : raw.memory.mm.mmap = some vma0Addr
  vmNext : raw.vma.next = none
  vmFreergList : raw.vma.val.vmFreergList = none
  symrgtbl : ∀ r, raw.memory.mm.symrgtbl r = ⟨0, 0⟩
  fifoPgn : raw.memory.mm.fifoPgn = none

/-! ## The memory after the call -/

section Init

variable (mallocVma : Malloc VmaFields) (mallocRg : Malloc VmRg) (raw : Raw)

/-- The area links the node, which links what the area's memory held as the head of
the list. -/
theorem initMm_eq :
    initMm mallocVma mallocRg raw = (0, { raw.memory with
      areas := Function.update raw.memory.areas (vma0Addr mallocVma raw)
        (some ⟨⟨0, 0, 0, 0, some (mallocRg.addr raw.memory.rgs)⟩, raw.vma.next⟩)
      rgs := Function.update raw.memory.rgs (mallocRg.addr raw.memory.rgs)
        (some ⟨⟨0, 0⟩, raw.vma.val.vmFreergList⟩) }) := by
  unfold initMm enlistVmRgNode initVmRg
  simp only [Function.update_self, Option.map_some, Function.update_idem]

/-- The list of the area ends behind the new node if the area's memory held a null
pointer. -/
theorem isArea_init_iff {rgs : Heap VmRg} {rgnode : ℕ} {next : Option ℕ}
    (hnode : rgs rgnode = some ⟨⟨0, 0⟩, next⟩) :
    IsArea rgs ⟨0, 0, 0, 0, some rgnode⟩ vma0 ↔ next = none := by
  rw [← exists_linked_singleton_iff hnode]
  exact ⟨fun h => h.vmFreergList, fun hlist => ⟨rfl, rfl, rfl, rfl, hlist⟩⟩

/-- The map is well formed exactly if the memory was clean. -/
theorem wellFormed_iff :
    WellFormed (initMm mallocVma mallocRg raw).2 (vma0Addr mallocVma raw) ↔
      Clean raw (vma0Addr mallocVma raw) := by
  rw [initMm_eq]
  have hrg := isArea_init_iff (Function.update_self (mallocRg.addr raw.memory.rgs)
    (some (⟨⟨0, 0⟩, raw.vma.val.vmFreergList⟩ : Node VmRg)) raw.memory.rgs)
  constructor
  · intro h
    obtain ⟨fields, hlinked, harea⟩ := h.mmap
    obtain ⟨hhead, hnode⟩ := linked_singleton_iff.mp hlinked
    dsimp only at hnode
    rw [Function.update_self] at hnode
    obtain ⟨rfl, hnext⟩ := Node.mk.inj (Option.some.inj hnode)
    exact ⟨hhead, hnext, hrg.mp harea, h.symrgtbl, h.fifoPgn⟩
  · intro h
    refine ⟨⟨_, linked_singleton_iff.mpr ⟨h.mmap, ?_⟩, hrg.mpr h.vmFreergList⟩, h.symrgtbl,
      h.fifoPgn⟩
    rw [h.vmNext]
    exact Function.update_self ..

end Init

/-! ## The first calls -/

section FirstCalls

variable {m : Memory} {mm : MmStruct}

/-- An area in memory is one area. -/
theorem IsArea.unique {rgs : Heap VmRg} {fields : VmaFields} {vma vma' : VmArea}
    (h : IsArea rgs fields vma) (h' : IsArea rgs fields vma') : vma = vma' := by
  obtain ⟨hid, hstart, hend, hsbrk, cells, hlinked, hcells⟩ := h
  obtain ⟨hid', hstart', hend', hsbrk', cells', hlinked', hcells'⟩ := h'
  have hlist : vma.vmFreergList = vma'.vmFreergList := by
    rw [← hcells, ← hcells', hlinked.chain.unique hlinked'.chain]
  cases vma
  cases vma'
  rw [VmArea.mk.injEq]
  exact ⟨hid.symm.trans hid', hstart.symm.trans hstart', hend.symm.trans hend',
    hsbrk.symm.trans hsbrk', hlist⟩

/-- A well-formed map is the one that the other results start from. -/
theorem WellFormed.fresh {vma0Addr : ℕ} (h : WellFormed m vma0Addr) (hm : Represents m mm)
    (activeMswp : Memphy Addr) : Fresh ⟨mm, activeMswp⟩ := by
  refine ⟨?_, fun r => ?_⟩
  · obtain ⟨fields, hlinked, harea⟩ := h.mmap
    obtain ⟨cells, hcells, hareas⟩ := hm.mmap
    cases hcells.chain.unique hlinked.chain
    obtain ⟨vma, rest, harea', hrest, hmmap⟩ := List.forall₂_cons_left_iff.mp hareas
    rw [List.forall₂_nil_left_iff.mp hrest, ← harea.unique harea'] at hmmap
    exact hmmap
  · show mm.symrgtbl r = _
    rw [← hm.symrgtbl]
    exact h.symrgtbl r

theorem WellFormed.fifoPgn_eq_nil {vma0Addr : ℕ} (h : WellFormed m vma0Addr)
    (hm : Represents m mm) : mm.fifoPgn = [] := by
  obtain ⟨cells, hlinked, hcells⟩ := hm.fifoPgn
  cases hlinked.chain.unique (linked_nil_iff.mpr h.fifoPgn).chain
  exact hcells.symm

theorem WellFormed.exists_represents {vma0Addr : ℕ} (h : WellFormed m vma0Addr) :
    ∃ mm, Represents m mm := by
  obtain ⟨fields, hlinked, harea⟩ := h.mmap
  let mm : MmStruct :=
    { pgd := fun _ => 0, mmap := [vma0], symrgtbl := m.mm.symrgtbl, fifoPgn := [] }
  refine ⟨mm, ⟨_, hlinked, .cons harea .nil⟩, rfl, [], linked_nil_iff.mpr h.fifoPgn, rfl⟩

/-- On a well-formed map the first calls are refused. -/
theorem WellFormed.freshMap {vma0Addr : ℕ} (h : WellFormed m vma0Addr) :
    FreshMap m vma0Addr := by
  obtain ⟨mm, hm⟩ := h.exists_represents
  refine ⟨h, mm, hm, fun activeMswp reg hreg => libfree_fresh (h.fresh hm activeMswp) hreg, ?_⟩
  rw [h.fifoPgn_eq_nil hm]
  rfl

end FirstCalls

/-! ## The call -/

section Init

variable (mallocVma : Malloc VmaFields) (mallocRg : Malloc VmRg) (raw : Raw)

/-- After `init_mm` the map is well formed and the first calls are refused, exactly
if the memory was clean. -/
theorem freshMap_iff :
    FreshMap (initMm mallocVma mallocRg raw).2 (vma0Addr mallocVma raw) ↔
      Clean raw (vma0Addr mallocVma raw) := by
  rw [← wellFormed_iff mallocVma mallocRg raw]
  exact ⟨fun h => h.toWellFormed, fun h => h.freshMap⟩

variable {mm : MmStruct}

/-- The first `libfree` of a register is refused exactly if its entry held the empty
region. -/
theorem libfree_init_iff (hm : Represents (initMm mallocVma mallocRg raw).2 mm)
    (activeMswp : Memphy Addr) {reg : BitVec 32} {r : Fin pagingMaxSymtblSz}
    (hreg : reg.toNat = r) :
    libfree ⟨mm, activeMswp⟩ reg = .ok (-1, ⟨mm, activeMswp⟩) ↔
      raw.memory.mm.symrgtbl r = ⟨0, 0⟩ := by
  have hsame : mm.symrgtbl = raw.memory.mm.symrgtbl := hm.symrgtbl.symm
  rw [libfree_refused_iff, hreg, ← hsame]
  constructor
  · rintro (hgt | ⟨r', hr', hempty⟩)
    · exact absurd hgt r.isLt.not_gt
    · rwa [show r = r' from Fin.ext hr']
  · exact fun hempty => .inr ⟨r, rfl, hempty⟩

/-- The first `find_victim_page` finds no page exactly if the head of the list held
a null pointer. -/
theorem findVictim_init_iff (hm : Represents (initMm mallocVma mallocRg raw).2 mm) :
    Fifo.findVictim mm.fifoPgn = .ok none ↔ raw.memory.mm.fifoPgn = none := by
  obtain ⟨cells, hlinked, hcells⟩ := hm.fifoPgn
  have hhead : (initMm mallocVma mallocRg raw).2.mm.fifoPgn = raw.memory.mm.fifoPgn := rfl
  rw [← hhead, Fifo.findVictim_eq_none_iff, ← hcells, List.map_eq_nil_iff]
  constructor
  · rintro rfl
    exact linked_nil_iff.mp hlinked
  · intro hnull
    exact hlinked.chain.unique (linked_nil_iff.mpr hnull).chain

end Init

/-- Memory in which every byte is 0. -/
def zeroed : Raw where
  memory :=
    { areas := fun _ => none
      rgs := fun _ => none
      pgns := fun _ => none
      mm := ⟨none, fun _ => ⟨0, 0⟩, none⟩ }
  vma := ⟨⟨0, 0, 0, 0, none⟩, none⟩
  rg := ⟨⟨0, 0⟩, none⟩

/-- The map has no area then, and an allocation follows a null pointer. -/
theorem initMm_zeroed :
    ¬ FreshMap (initMm .least .least zeroed).2 (vma0Addr .least zeroed) ∧
    ∃ mm, Represents (initMm .least .least zeroed).2 mm ∧
      liballoc ⟨mm, ⟨[]⟩⟩ 8 0 = .error .nullDeref := by
  refine ⟨fun h => ?_, ?_⟩
  · have hclean := (wellFormed_iff .least .least zeroed).mp h.toWellFormed
    cases hclean.mmap
  · let mm : MmStruct :=
      { pgd := fun _ => 0, mmap := [], symrgtbl := fun _ => ⟨0, 0⟩, fifoPgn := [] }
    refine ⟨mm, ⟨⟨[], linked_nil_iff.mpr rfl, .nil⟩, rfl, [], linked_nil_iff.mpr rfl, rfl⟩, rfl⟩

end InitMm

end SimpleOs
