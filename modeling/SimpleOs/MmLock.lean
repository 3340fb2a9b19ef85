import SimpleOs.FrameList
import SimpleOs.Libmem
import SimpleOs.Lib.Mutex

/-!
# The lock of the memory map

`liballoc`, `libfree`, `libwrite` and `free_pcb_memph` take `mmvm_lock` before
they touch the memory map and release it before they return. `libread` does not
take it, although getting the page that it reads may take a victim from the page
FIFO and a frame from the swap device.

The model has any number of threads that call these functions in any order on
one memory map. A step is one statement, in the page FIFO and the free-frame
lists one access to a node. The FIFO and the free frames are lists in memory,
so two threads can hold the same node.

Results:
1. `run_exclusive`: as long as no thread in `libread` finds a page in the FIFO,
   an update happens only under the lock.
2. `libread_victim_twice`: two readers choose the same victim and free it twice.
3. `not_exclusive_of_victim`: a thread that finds one gets to an update that
   happens without the lock.
-/

namespace SimpleOs

namespace MmLock

open LinkedList MmStruct Libmem Mutex

/-! ## Memory -/

/-- The memory map and the devices as the threads share them. `mram` and
`activeMswp` are the heads of the free-frame lists. -/
structure Shared where
  pgd : ℕ → Addr
  mmap : List VmArea
  symrgtbl : Fin pagingMaxSymtblSz → VmRg
  pgnHeap : Heap Addr
  fifoPgn : Option ℕ
  fpHeap : Heap Addr
  mram : Option ℕ
  activeMswp : Option ℕ

/-- The part that `get_vma_by_num`, `get_free_vmrg_area` and
`enlist_vm_freerg_list` read and write. -/
def Shared.mm (mem : Shared) : MmStruct where
  pgd := mem.pgd
  mmap := mem.mmap
  symrgtbl := mem.symrgtbl
  fifoPgn := []

/-! ## Positions -/

/-- The two functions that get a page. -/
inductive Access
  | read
  | write
  deriving DecidableEq

/-- Where a thread is, with the locals it still needs. -/
inductive Pos
  | idle
  /-- It followed a pointer to no node or left an array; `held` says whether it
  holds the lock. -/
  | faulted (held : Bool)
  /-- At `pthread_mutex_unlock`. -/
  | unlock
  -- `__alloc`
  | allocLock (size : Addr) (rgid : ℤ)
  | allocArea (size : Addr) (rgid : ℤ)
  | allocSymrg (rgid : ℤ) (rgnode : VmRg)
  -- `__free`
  | freeLock (rgid : ℤ)
  | freeTest (rgid : ℤ)
  | freeSymrg (r : Fin pagingMaxSymtblSz) (rgnode : VmRg)
  | freeEnlist (rgnode : VmRg)
  -- `__read` and `__write`
  | readSymrg (rgid : ℤ) (offset : Addr)
  | writeLock (rgid : ℤ) (offset : Addr)
  | writeSymrg (rgid : ℤ) (offset : Addr)
  -- `find_victim_page`
  | victimHead (who : Access) (pgn : Addr)
  | victimWalk (who : Access) (pgn : Addr) (prev : Option ℕ) (pg : ℕ)
  | victimUnlink (who : Access) (pgn : Addr) (prev : Option ℕ) (pg : ℕ)
  | victimFree (who : Access) (pgn : Addr) (pg : ℕ)
  -- `MEMPHY_get_freefp`
  | frameHead (who : Access) (pgn : Addr)
  | frameTake (who : Access) (pgn : Addr) (fp : ℕ)
  | frameFree (who : Access) (pgn : Addr) (fp : ℕ)
  -- `enlist_pgn_node`
  | enlistNode (who : Access) (pgn : Addr)
  | enlistLink (who : Access) (pnode : ℕ)
  -- `free_pcb_memph`, with `MEMPHY_put_freefp` on RAM or on the swap device
  | teardownLock
  | teardownNode (pagenum : ℕ)
  | teardownLink (pagenum : ℕ) (ram : Bool) (newnode : ℕ)
  deriving DecidableEq

/-- Where `__read` and `__write` go on when `pg_getpage` returns. -/
def afterPage : Access → Pos
  | .read => .idle
  | .write => .unlock

/-- A call. -/
inductive Call
  | liballoc (size : Addr) (regIndex : BitVec 32)
  | libfree (regIndex : BitVec 32)
  | libread (source : BitVec 32) (offset : Addr)
  | libwrite (destination : BitVec 32) (offset : Addr)
  | freePcbMemph
  deriving DecidableEq

/-- Where a call begins. -/
def Call.entry : Call → Pos
  | .liballoc size regIndex => .allocLock size regIndex.toInt
  | .libfree regIndex => .freeLock regIndex.toInt
  | .libread source offset => .readSymrg source.toInt offset
  | .libwrite destination offset => .writeLock destination.toInt offset
  | .freePcbMemph => .teardownLock

/-! ## Statements -/

/-- The page number that `pg_getval` and `pg_setval` pass on. -/
def accessPgn (rg : VmRg) (offset : Addr) : Addr :=
  (Translation.pagingPgn ((rg.rgStart + offset).setWidth 32)).signExtend 64

/-- The region that `__alloc` records, or `none` for a fault, and the areas. -/
def allocRg (mm : MmStruct) (size : Addr) : Option (VmRg × List VmArea) :=
  match getVmaByNum mm 0, getFreeVmrgArea mm 0 (size.setWidth 32) with
  | .ok _, .ok (some rgnode, mm') => some (rgnode, mm'.mmap)
  | .ok (some cur), .ok (none, mm') =>
    let oldSbrk := (cur.vma.sbrk.setWidth 32).signExtend 64
    some (⟨oldSbrk, oldSbrk + size⟩, mm'.mmap)
  | _, _ => none

/-- The statement at a position: what it does to the lock, the next position and
the memory. No thread is at a statement in `idle` and in `faulted`. -/
def next (malloc : Malloc Addr) (mem : Shared) : Pos → Option (LockAct × Pos × Shared)
  | .idle | .faulted _ => none
  | .unlock => some (.give, .idle, mem)
  | .allocLock size rgid => some (.take, .allocArea size rgid, mem)
  | .allocArea size rgid =>
    match allocRg mem.mm size with
    | none => some (.keep, .faulted true, mem)
    | some (rgnode, mmap) => some (.keep, .allocSymrg rgid rgnode, { mem with mmap := mmap })
  | .allocSymrg rgid rgnode =>
    match symIndex rgid with
    | .error _ => some (.keep, .faulted true, mem)
    | .ok r => some (.keep, .unlock,
      { mem with symrgtbl := Function.update mem.symrgtbl r rgnode })
  | .freeLock rgid => some (.take, .freeTest rgid, mem)
  | .freeTest rgid =>
    if rgid < 0 ∨ rgid > pagingMaxSymtblSz then some (.keep, .unlock, mem)
    else
      match symIndex rgid with
      | .error _ => some (.keep, .faulted true, mem)
      | .ok r =>
        if mem.symrgtbl r = ⟨0, 0⟩ then some (.keep, .unlock, mem)
        else some (.keep, .freeSymrg r (mem.symrgtbl r), mem)
  | .freeSymrg r rgnode => some (.keep, .freeEnlist rgnode,
    { mem with symrgtbl := Function.update mem.symrgtbl r ⟨0, 0⟩ })
  | .freeEnlist rgnode =>
    match enlistVmFreergList mem.mm rgnode with
    | .error _ => some (.keep, .faulted true, mem)
    | .ok (_, mm) => some (.keep, .unlock, { mem with mmap := mm.mmap })
  | .readSymrg rgid offset =>
    match getSymrgById rgid, symIndex rgid with
    | some _, .ok r =>
      some (.keep, .victimHead .read (accessPgn (mem.symrgtbl r) offset), mem)
    | _, _ => some (.keep, .faulted false, mem)
  | .writeLock rgid offset => some (.take, .writeSymrg rgid offset, mem)
  | .writeSymrg rgid offset =>
    match getVmaByNum mem.mm 0 with
    | .error _ => some (.keep, .faulted true, mem)
    | .ok curVma =>
      if getSymrgById rgid = none ∨ curVma.isNone then some (.keep, .unlock, mem)
      else
        match symIndex rgid with
        | .error _ => some (.keep, .faulted true, mem)
        | .ok r => some (.keep, .victimHead .write (accessPgn (mem.symrgtbl r) offset), mem)
  -- No entry is ever present, so `pg_getpage` always looks for a victim.
  | .victimHead who pgn =>
    match mem.fifoPgn with
    | none => some (.keep, afterPage who, mem)
    | some pg => some (.keep, .victimWalk who pgn none pg, mem)
  | .victimWalk who pgn prev pg =>
    match mem.pgnHeap pg with
    | none => some (.keep, .faulted (who = .write), mem)
    | some ⟨_, some q⟩ => some (.keep, .victimWalk who pgn (some pg) q, mem)
    | some ⟨_, none⟩ => some (.keep, .victimUnlink who pgn prev pg, mem)
  | .victimUnlink who pgn prev pg =>
    match prev with
    | none => some (.keep, .faulted (who = .write), mem)
    | some prev =>
      match mem.pgnHeap prev with
      | none => some (.keep, .faulted (who = .write), mem)
      | some node =>
        let heap := Function.update mem.pgnHeap prev (some { node with next := none })
        some (.keep, .victimFree who pgn pg, { mem with pgnHeap := heap })
  | .victimFree who pgn pg =>
    match mem.pgnHeap pg with
    -- The node was freed already.
    | none => some (.keep, .faulted (who = .write), mem)
    | some _ => some (.keep, .frameHead who pgn,
      { mem with pgnHeap := Function.update mem.pgnHeap pg none })
  | .frameHead who pgn =>
    match mem.activeMswp with
    | none => some (.keep, afterPage who, mem)
    | some fp => some (.keep, .frameTake who pgn fp, mem)
  | .frameTake who pgn fp =>
    match mem.fpHeap fp with
    | none => some (.keep, .faulted (who = .write), mem)
    | some node => some (.keep, .frameFree who pgn fp, { mem with activeMswp := node.next })
  | .frameFree who pgn fp =>
    match mem.fpHeap fp with
    | none => some (.keep, .faulted (who = .write), mem)
    | some _ => some (.keep, .enlistNode who pgn,
      { mem with fpHeap := Function.update mem.fpHeap fp none })
  | .enlistNode who pgn =>
    let pnode := malloc.addr mem.pgnHeap
    let heap := Function.update mem.pgnHeap pnode (some ⟨pgn, mem.fifoPgn⟩)
    some (.keep, .enlistLink who pnode, { mem with pgnHeap := heap })
  | .enlistLink who pnode => some (.keep, afterPage who, { mem with fifoPgn := some pnode })
  | .teardownLock => some (.take, .teardownNode 0, mem)
  | .teardownNode pagenum =>
    if pagenum < Pte.pagingMaxPgn then
      let pte := (mem.pgd pagenum).setWidth 32
      let ram := Pte.pagingPagePresent pte
      let fpn := if ram then Pte.pagingFpn pte else Pte.pagingSwp pte
      let newnode := malloc.addr mem.fpHeap
      let node : Node Addr := ⟨fpn.signExtend 64, if ram then mem.mram else mem.activeMswp⟩
      some (.keep, .teardownLink pagenum ram newnode,
        { mem with fpHeap := Function.update mem.fpHeap newnode (some node) })
    else some (.keep, .unlock, mem)
  | .teardownLink pagenum ram newnode =>
    let mem := if ram then { mem with mram := some newnode }
      else { mem with activeMswp := some newnode }
    some (.keep, .teardownNode (pagenum + 1), mem)

/-- The threads that share the memory map. -/
def program (malloc : Malloc Addr) : Program Call Pos Shared where
  idle := .idle
  entry := Call.entry
  next := next malloc

/-! ## Classes of positions -/

/-- Between `pthread_mutex_lock` and `pthread_mutex_unlock`. -/
def Pos.locked : Pos → Bool
  | .faulted held => held
  | .unlock => true
  | .allocArea .. | .allocSymrg .. => true
  | .freeTest .. | .freeSymrg .. | .freeEnlist .. => true
  | .writeSymrg .. => true
  | .victimHead who _ | .victimWalk who .. | .victimUnlink who .. | .victimFree who .. =>
    who = .write
  | .frameHead who _ | .frameTake who .. | .frameFree who .. => who = .write
  | .enlistNode who _ | .enlistLink who _ => who = .write
  | .teardownNode _ | .teardownLink .. => true
  | .idle | .allocLock .. | .freeLock _ | .readSymrg .. | .writeLock .. | .teardownLock => false

/-- At a statement that writes `symrgtbl`, `vm_freerg_list`, `fifo_pgn`, a
free-frame list or a node of one of these lists. -/
def Pos.updates : Pos → Bool
  | .allocArea .. | .allocSymrg .. | .freeSymrg .. | .freeEnlist .. => true
  | .victimUnlink .. | .victimFree .. => true
  | .frameTake .. | .frameFree .. => true
  | .enlistNode .. | .enlistLink .. => true
  | .teardownNode _ | .teardownLink .. => true
  | _ => false

/-- In `libread` behind the test of `fifo_pgn`. -/
def Pos.bare : Pos → Bool
  | .victimWalk who .. | .victimUnlink who .. | .victimFree who .. => who = .read
  | .frameHead who _ | .frameTake who .. | .frameFree who .. => who = .read
  | .enlistNode who _ | .enlistLink who _ => who = .read
  | _ => false

/-- The node that the thread has chosen as victim and takes off the FIFO. -/
def Pos.victim : Pos → Option ℕ
  | .victimUnlink _ _ _ pg | .victimFree _ _ pg => some pg
  | _ => none

/-- A victim is taken by an update. -/
theorem Pos.updates_of_victim {p : Pos} {pg : ℕ} (h : p.victim = some pg) : p.updates = true := by
  cases p <;> first | rfl | cases h

/-- Outside `libread` every update lies between lock and unlock. -/
theorem Pos.locked_of_updates {p : Pos} (h : p.updates = true) (hbare : p.bare = false) :
    p.locked = true := by
  cases p with
  | allocArea | allocSymrg | freeSymrg | freeEnlist | teardownNode | teardownLink => rfl
  | victimUnlink who | victimFree who | frameTake who | frameFree who | enlistNode who
  | enlistLink who =>
    cases who with
    | read => cases hbare
    | write => rfl
  | _ => cases h

/-! ## One step -/

section Step

variable {malloc : Malloc Addr} {mem mem' : Shared} {p p' : Pos} {act : LockAct}

theorem locked_afterPage (who : Access) : (afterPage who).locked = decide (who = .write) := by
  cases who with
  | read => rfl
  | write => rfl

theorem bare_afterPage (who : Access) : (afterPage who).bare = false := by
  cases who with
  | read => rfl
  | write => rfl

/-- A statement takes the lock, gives it or keeps it as its positions say. -/
theorem next_locked (h : next malloc mem p = some (act, p', mem')) :
    (act = .keep ∧ p'.locked = p.locked) ∨ (act = .take ∧ p.locked = false ∧ p'.locked = true) ∨
      (act = .give ∧ p.locked = true ∧ p'.locked = false) := by
  revert h
  fun_cases next malloc mem p
  case case1 | case2 => exact fun h => absurd h (by simp)
  all_goals
    intro h
    simp only [Option.some.injEq, Prod.mk.injEq] at h
    obtain ⟨rfl, rfl, -⟩ := h
  all_goals first
    | exact .inl ⟨rfl, rfl⟩
    | exact .inl ⟨rfl, locked_afterPage _⟩
    | exact .inr (.inl ⟨rfl, rfl, rfl⟩)
    | exact .inr (.inr ⟨rfl, rfl, rfl⟩)

/-- A statement that does not update leaves the memory alone. -/
theorem next_mem (h : next malloc mem p = some (act, p', mem')) (hp : p.updates = false) :
    mem' = mem := by
  revert h
  fun_cases next malloc mem p
  case case1 | case2 => exact fun h => absurd h (by simp)
  all_goals
    intro h
    simp only [Option.some.injEq, Prod.mk.injEq] at h
    obtain ⟨-, -, rfl⟩ := h
  all_goals first
    | rfl
    | cases hp

theorem discipline (malloc : Malloc Addr) : (program malloc).Discipline Pos.locked where
  idle := rfl
  entry c := by cases c <;> rfl
  keep mem p p' mem' h := by
    rcases next_locked h with ⟨-, hp⟩ | ⟨hact, -⟩ | ⟨hact, -⟩
    · exact hp
    · cases hact
    · cases hact
  take mem p p' mem' h := by
    rcases next_locked h with ⟨hact, -⟩ | ⟨-, hp⟩ | ⟨hact, -⟩
    · cases hact
    · exact hp
    · cases hact
  give mem p p' mem' h := by
    rcases next_locked h with ⟨hact, -⟩ | ⟨hact, -⟩ | ⟨-, hp⟩
    · cases hact
    · cases hact
    · exact hp

/-- The statement is not the test of `fifo_pgn` in `libread` with a page in the
list. -/
def NoVictim (mem : Shared) (p : Pos) : Prop :=
  ∀ pgn, p = .victimHead .read pgn → mem.fifoPgn = none

/-- Only that test leads behind itself. -/
theorem next_bare (h : next malloc mem p = some (act, p', mem')) (hok : NoVictim mem p)
    (hp : p.bare = false) : p'.bare = false := by
  revert h
  fun_cases next malloc mem p
  case case1 | case2 => exact fun h => absurd h (by simp)
  all_goals
    intro h
    simp only [Option.some.injEq, Prod.mk.injEq] at h
    obtain ⟨rfl, rfl, -⟩ := h
  case case25 who pgn pg hfifo =>
    cases who with
    | read =>
      rw [hok pgn rfl] at hfifo
      cases hfifo
    | write => rfl
  all_goals first
    | exact hp
    | exact bare_afterPage _
    | rfl

end Step

/-! ## Runs -/

variable {τ : Type*} [DecidableEq τ] {malloc : Malloc Addr} {s₀ s : State τ Pos Shared}
  {tr : List (τ × Act Call)}

/-- Every update is made by the holder of the lock, hence by one thread at a
time, and no two threads have the same victim. -/
structure Exclusive (malloc : Malloc Addr) (s : State τ Pos Shared) : Prop where
  held : ∀ t, (s.pos t).updates = true → s.lock = some t
  alone : ∀ t u, (s.pos t).updates = true → (s.pos u).updates = true → t = u
  victim : ∀ t u pg, (s.pos t).victim = some pg → (s.pos u).victim = some pg → t = u
  /-- The statements that change the memory are among the updates. -/
  changes : ∀ t act p mem, next malloc s.mem (s.pos t) = some (act, p, mem) → mem ≠ s.mem →
    s.lock = some t

/-- As long as `libread` finds no page in the FIFO, every update happens under
the lock. -/
theorem run_exclusive (h₀ : ((program malloc).threads τ).init s₀)
    (hrun : (((program malloc).threads τ).restrict (Admits NoVictim)).Run s₀ tr s) :
    Exclusive malloc s := by
  have hheld : Held Pos.locked s := (discipline malloc).held_iff h₀ hrun.of_restrict
  have hbare : ∀ t, (s.pos t).bare = false := fun t =>
    never_at rfl (fun c => by cases c <;> rfl)
      (fun _ _ _ _ _ hnext hok hp => next_bare hnext hok hp) h₀ hrun t
  have hlocked : ∀ t, (s.pos t).updates = true → (s.pos t).locked = true := fun t ht =>
    Pos.locked_of_updates ht (hbare t)
  have halone : ∀ t u, (s.pos t).updates = true → (s.pos u).updates = true → t = u :=
    fun t u ht hu => hheld.unique (hlocked t ht) (hlocked u hu)
  exact {
    held := fun t ht => (hheld t).mpr (hlocked t ht)
    alone := halone
    victim := fun t u pg ht hu =>
      halone t u (Pos.updates_of_victim ht) (Pos.updates_of_victim hu)
    changes := fun t act p mem hnext hne => by
      cases hp : (s.pos t).updates with
      | true => exact (hheld t).mpr (hlocked t hp)
      | false => exact absurd (next_mem hnext hp) hne }

/-- Two pages in the FIFO. -/
def twoPages : Shared where
  pgd _ := 0
  mmap := []
  symrgtbl _ := ⟨0, 0⟩
  pgnHeap a := if a = 1 then some ⟨7, some 2⟩ else if a = 2 then some ⟨5, none⟩ else none
  fifoPgn := some 1
  fpHeap _ := none
  mram := none
  activeMswp := none

/-- Two threads before any call. -/
def start : State Bool Pos Shared where
  lock := none
  pos _ := .idle
  mem := twoPages

theorem start_init (malloc : Malloc Addr) : ((program malloc).threads Bool).init start :=
  ⟨rfl, fun _ => rfl⟩

/-- One thread is in `free_pcb_memph` and another begins to read. -/
theorem run_exclusive_freePcbMemph : ∃ s : State Bool Pos Shared,
    (((program .least).threads Bool).restrict (Admits NoVictim)).Run start
      [(false, .call .freePcbMemph), (false, .stmt), (true, .call (.libread 0 0)),
        (true, .stmt)] s ∧ (s.pos false).updates = true ∧ Exclusive .least s := by
  obtain ⟨s, hrun, hpos⟩ : ∃ s : State Bool Pos Shared,
      (((program .least).threads Bool).restrict (Admits NoVictim)).Run start
        [(false, .call .freePcbMemph), (false, .stmt), (true, .call (.libread 0 0)),
          (true, .stmt)] s ∧ (s.pos false).updates = true :=
    ⟨_, .cons ⟨⟨rfl, rfl⟩, fun h => by cases h⟩
      (.cons ⟨⟨_, _, _, _, rfl, rfl, rfl⟩, fun _ _ h => by cases h⟩
      (.cons ⟨⟨rfl, rfl⟩, fun h => by cases h⟩
      (.cons ⟨⟨_, _, _, _, rfl, rfl, rfl⟩, fun _ _ h => by cases h⟩ .nil))), rfl⟩
  exact ⟨s, hrun, hpos, run_exclusive (start_init .least) hrun⟩

/-- The labels of `libread` up to the choice of its victim. -/
def reads (t : Bool) : List (Bool × Act Call) :=
  [(t, .call (.libread 0 0)), (t, .stmt), (t, .stmt), (t, .stmt), (t, .stmt)]

/-- Two threads read: both choose the last page as victim, without the lock. When
the first has freed it, the second frees it again. -/
theorem libread_victim_twice : ∃ s s' : State Bool Pos Shared,
    ((program .least).threads Bool).Run start (reads false ++ reads true) s ∧
      s.lock = none ∧ (s.pos false).victim = some 2 ∧ (s.pos true).victim = some 2 ∧
      ¬ Exclusive .least s ∧
    ((program .least).threads Bool).Run s
      [(false, .stmt), (false, .stmt), (true, .stmt), (true, .stmt)] s' ∧
      s'.pos true = .faulted false := by
  obtain ⟨s, s', hrun, hlock, hfalse, htrue, hrun', hpos⟩ : ∃ s s' : State Bool Pos Shared,
      ((program .least).threads Bool).Run start (reads false ++ reads true) s ∧ s.lock = none ∧
      (s.pos false).victim = some 2 ∧ (s.pos true).victim = some 2 ∧
      ((program .least).threads Bool).Run s
        [(false, .stmt), (false, .stmt), (true, .stmt), (true, .stmt)] s' ∧
      s'.pos true = .faulted false :=
    ⟨_, _, .cons ⟨rfl, rfl⟩ (.cons ⟨_, _, _, _, rfl, rfl, rfl⟩ (.cons ⟨_, _, _, _, rfl, rfl, rfl⟩
      (.cons ⟨_, _, _, _, rfl, rfl, rfl⟩ (.cons ⟨_, _, _, _, rfl, rfl, rfl⟩
      (.cons ⟨rfl, rfl⟩ (.cons ⟨_, _, _, _, rfl, rfl, rfl⟩ (.cons ⟨_, _, _, _, rfl, rfl, rfl⟩
      (.cons ⟨_, _, _, _, rfl, rfl, rfl⟩ (.cons ⟨_, _, _, _, rfl, rfl, rfl⟩ .nil))))))))),
      rfl, rfl, rfl,
      .cons ⟨_, _, _, _, rfl, rfl, rfl⟩ (.cons ⟨_, _, _, _, rfl, rfl, rfl⟩
        (.cons ⟨_, _, _, _, rfl, rfl, rfl⟩ (.cons ⟨_, _, _, _, rfl, rfl, rfl⟩ .nil))), rfl⟩
  refine ⟨s, s', hrun, hlock, hfalse, htrue, fun hex => ?_, hrun', hpos⟩
  exact absurd (hex.victim false true 2 hfalse htrue) (by decide)

/-- From a node of the list the thread walks to its end, where it updates. -/
theorem walk_updates (malloc : Malloc Addr) {t : τ} {who : Access} {pgn : Addr}
    {cells : List (ℕ × Addr)} {cell : ℕ × Addr} {prev : Option ℕ}
    (hpos : s.pos t = .victimWalk who pgn prev cell.1)
    (hchain : Chain s.mem.pgnHeap (some cell.1) (cell :: cells) none) :
    ∃ tr s' prev' pg, ((program malloc).threads τ).Run s tr s' ∧ (∀ l ∈ tr, l.1 = t) ∧
      s'.lock = s.lock ∧ s'.pos t = .victimUnlink who pgn prev' pg := by
  induction cells generalizing s cell prev with
  | nil =>
    obtain ⟨-, next', hnode, rfl⟩ := hchain
    have hnext : next malloc s.mem (s.pos t) =
        some (.keep, .victimUnlink who pgn prev cell.1, s.mem) := by
      rw [hpos]
      simp only [next, hnode]
    refine ⟨_, _, prev, cell.1, .snoc .nil (Program.step_move hnext), fun l hl => ?_, rfl,
      s.move_pos_self _ _⟩
    cases List.mem_singleton.mp hl
    rfl
  | cons cell' cells ih =>
    obtain ⟨-, next', hnode, rfl, hrest⟩ := hchain
    have hnext : next malloc s.mem (s.pos t) =
        some (.keep, .victimWalk who pgn (some cell.1) cell'.1, s.mem) := by
      rw [hpos]
      simp only [next, hnode]
    obtain ⟨tr, s', prev', pg, hrun, hmine, hlock, hpos'⟩ :=
      ih (s.move_pos_self t (.victimWalk who pgn (some cell.1) cell'.1)) ⟨rfl, hrest⟩
    refine ⟨_, s', prev', pg, .cons (Program.step_move hnext) hrun, fun l hl => ?_, hlock, hpos'⟩
    rcases List.mem_cons.mp hl with rfl | hl
    · rfl
    · exact hmine l hl

/-- If `libread` finds a page in the FIFO, its thread alone gets to an update that
happens without the lock. -/
theorem not_exclusive_of_victim (h₀ : ((program malloc).threads τ).init s₀)
    (hrun : ((program malloc).threads τ).Run s₀ tr s) {t : τ} {pgn : Addr}
    (hpos : s.pos t = .victimHead .read pgn) {cell : ℕ × Addr} {cells : List (ℕ × Addr)}
    (hfifo : Chain s.mem.pgnHeap s.mem.fifoPgn (cell :: cells) none) :
    ∃ tr' s', ((program malloc).threads τ).Run s tr' s' ∧ (∀ l ∈ tr', l.1 = t) ∧
      ¬ Exclusive malloc s' := by
  have hheld : Held Pos.locked s := (discipline malloc).held_iff h₀ hrun
  have hfree : s.lock ≠ some t := by
    intro hlock
    have hlocked := (hheld t).mp hlock
    rw [hpos] at hlocked
    cases hlocked
  have hhead : s.mem.fifoPgn = some cell.1 := hfifo.1
  have hnext : next malloc s.mem (s.pos t) =
      some (.keep, .victimWalk .read pgn none cell.1, s.mem) := by
    rw [hpos]
    simp only [next, hhead]
  obtain ⟨tr', s', prev, pg, hrun', hmine, hlock, hpos'⟩ :=
    walk_updates malloc (s.move_pos_self t (.victimWalk .read pgn none cell.1)) (hhead ▸ hfifo)
  refine ⟨_, s', .cons (Program.step_move hnext) hrun', fun l hl => ?_, fun hex => hfree ?_⟩
  · rcases List.mem_cons.mp hl with rfl | hl
    · rfl
    · exact hmine l hl
  · have hupdates : s'.lock = some t := hex.held t (by rw [hpos']; rfl)
    rwa [hlock] at hupdates

end MmLock

end SimpleOs
