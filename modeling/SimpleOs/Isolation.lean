import SimpleOs.Lib.Lts
import SimpleOs.Libmem

/-!
# The memory map of a process

A process reaches its memory map through two pointers, `proc->krnl->mm`. The
loader lets every `proc->krnl` point to the one global `os`, and for every
process it loads it makes a new `mm_struct` the target of `os.mm`. So all
processes work on one memory map, that of the process loaded last.

Results:
1. `memoryMap_shared`: in every reachable state all loaded processes have the
   same memory map.
2. `memoryMap_load`, `memoryMap_exec`: loading a process gives every other one
   the fresh map, and what an operation makes of the map of its process it makes
   of everyone's.
3. `memoryMap_unchanged`: the map of a process stays as it is over runs of
   another one whose operations are refused before they write.
-/

namespace SimpleOs

namespace Isolation

open MmStruct Libmem

/-- The memory operation of an instruction, with its operands as the library
takes them. -/
inductive Op
  | alloc (size : Addr) (regIndex : BitVec 32)
  | free (regIndex : BitVec 32)
  | read (source : BitVec 32) (offset : Addr) (data : BitVec 8)
  | write (data : BitVec 8) (destination : BitVec 32) (offset : Addr)

/-- The kernel after the operation. -/
def Op.run (krnl : Krnl) : Op → Except Fault Krnl
  | .alloc size regIndex => (liballoc krnl size regIndex).map fun result => result.2
  | .free regIndex => (libfree krnl regIndex).map fun result => result.2
  | .read source offset data => (libread krnl source offset data).map fun result => result.2.2
  | .write data destination offset =>
    (libwrite krnl data destination offset).map fun result => result.2

/-- A `krnl_t` with its pointer to a memory map. -/
structure KrnlPtrs where
  mm : Option ℕ
  activeMswp : Memphy Addr

/-- The memory maps by address, the kernel structures by address, and the field
`krnl` of each process that is loaded. -/
structure State where
  mms : List MmStruct
  krnls : ℕ → KrnlPtrs
  krnl : ℕ → Option ℕ

/-- The address of the global variable `os`. -/
def osAddr : ℕ := 0

/-- What the process `p` works on: `*p->krnl->mm`. -/
def memoryMap (s : State) (p : ℕ) : Option MmStruct := do
  let krnl ← s.krnl p
  let mm ← (s.krnls krnl).mm
  s.mms[mm]?

/-- A step: the loader loads a process, whose new `mm_struct` has the content
`raw`, or a process executes an operation. -/
inductive Action
  | load (q : ℕ) (raw : MmStruct)
  | exec (q : ℕ) (op : Op)

/-- The process of a step. -/
def Action.proc : Action → ℕ
  | .load q _ | .exec q _ => q

/-- One round of the loop of `ld_routine`. The area that `init_mm` allocates is
not linked to the map, which keeps what `malloc` left in it. -/
def load (s : State) (q : ℕ) (raw : MmStruct) : State where
  mms := s.mms ++ [raw]
  krnls := Function.update s.krnls osAddr { s.krnls osAddr with mm := some s.mms.length }
  krnl := Function.update s.krnl q (some osAddr)

/-- What an operation on the kernel structure at `krnl` and the map at `mm` left
behind, written back. -/
def State.store (s : State) (krnl mm : ℕ) (result : Krnl) : State :=
  let ptrs : KrnlPtrs := { s.krnls krnl with activeMswp := result.activeMswp }
  { s with mms := s.mms.set mm result.mm, krnls := Function.update s.krnls krnl ptrs }

/-- An operation of a loaded process, if it does not fault. -/
def exec (s : State) (q : ℕ) (op : Op) : Option State := do
  let krnl ← s.krnl q
  let mm ← (s.krnls krnl).mm
  let map ← s.mms[mm]?
  match op.run ⟨map, (s.krnls krnl).activeMswp⟩ with
  | .error _ => none
  | .ok result => some (s.store krnl mm result)

/-- The state after a step. -/
def State.next (s : State) : Action → Option State
  | .load q raw => some (load s q raw)
  | .exec q op => exec s q op

/-- No process is loaded and no map allocated. -/
def boot (activeMswp : Memphy Addr) : State where
  mms := []
  krnls := fun _ => ⟨none, activeMswp⟩
  krnl := fun _ => none

/-- Loads and operations in any order. -/
def system : Lts State Action where
  init s := ∃ activeMswp, s = boot activeMswp
  step s a t := s.next a = some t

@[simp] theorem load_mms (s : State) (q : ℕ) (raw : MmStruct) :
    (load s q raw).mms = s.mms ++ [raw] := rfl

@[simp] theorem load_krnls_mm (s : State) (q : ℕ) (raw : MmStruct) :
    ((load s q raw).krnls osAddr).mm = some s.mms.length := by
  simp [load]

@[simp] theorem load_krnl_self (s : State) (q : ℕ) (raw : MmStruct) :
    (load s q raw).krnl q = some osAddr :=
  Function.update_self ..

theorem load_krnl_of_ne {p q : ℕ} (h : p ≠ q) (s : State) (raw : MmStruct) :
    (load s q raw).krnl p = s.krnl p :=
  Function.update_of_ne h ..

@[simp] theorem store_krnl (s : State) (krnl mm : ℕ) (result : Krnl) :
    (s.store krnl mm result).krnl = s.krnl := rfl

@[simp] theorem store_mms (s : State) (krnl mm : ℕ) (result : Krnl) :
    (s.store krnl mm result).mms = s.mms.set mm result.mm := rfl

@[simp] theorem store_krnls_mm (s : State) (krnl mm krnl' : ℕ) (result : Krnl) :
    ((s.store krnl mm result).krnls krnl').mm = (s.krnls krnl').mm := by
  rcases eq_or_ne krnl' krnl with rfl | h
  · simp [State.store]
  · simp [State.store, Function.update_of_ne h]

theorem memoryMap_eq {s : State} {p krnl mm : ℕ} (hkrnl : s.krnl p = some krnl)
    (hmm : (s.krnls krnl).mm = some mm) : memoryMap s p = s.mms[mm]? := by
  unfold memoryMap
  rw [hkrnl, Option.bind_eq_bind, Option.bind_some, hmm]
  rfl

theorem memoryMap_of_not_loaded {s : State} {p : ℕ} (h : s.krnl p = none) :
    memoryMap s p = none := by
  unfold memoryMap
  rw [h]
  rfl

theorem exec_eq_some {s t : State} {q : ℕ} {op : Op} (h : exec s q op = some t) :
    ∃ krnl mm map result, s.krnl q = some krnl ∧ (s.krnls krnl).mm = some mm ∧
      s.mms[mm]? = some map ∧ op.run ⟨map, (s.krnls krnl).activeMswp⟩ = .ok result ∧
      t = s.store krnl mm result := by
  obtain ⟨krnl, hkrnl, h⟩ := Option.bind_eq_some_iff.mp h
  obtain ⟨mm, hmm, h⟩ := Option.bind_eq_some_iff.mp h
  obtain ⟨map, hmap, h⟩ := Option.bind_eq_some_iff.mp h
  refine ⟨krnl, mm, map, ?_⟩
  cases hrun : op.run ⟨map, (s.krnls krnl).activeMswp⟩ with
  | error e =>
    rw [hrun] at h
    cases h
  | ok result =>
    rw [hrun] at h
    cases h
    exact ⟨result, hkrnl, hmm, hmap, rfl, rfl⟩

/-! ## One map for all -/

/-- Every process points to `os`. -/
theorem krnl_eq_os {s : State} (hs : system.Reachable s) :
    ∀ p krnl, s.krnl p = some krnl → krnl = osAddr := by
  refine hs.invariant (I := fun s => ∀ p krnl, s.krnl p = some krnl → krnl = osAddr) ?_ ?_
  · rintro s ⟨activeMswp, rfl⟩ p krnl h
    cases h
  · intro s a t ih hst p krnl h
    cases a with
    | load q raw =>
      cases hst
      rcases eq_or_ne p q with rfl | hpq
      · rw [load_krnl_self] at h
        exact (Option.some.inj h).symm
      · rw [load_krnl_of_ne hpq] at h
        exact ih p krnl h
    | exec q op =>
      obtain ⟨_, _, _, _, _, _, _, _, rfl⟩ := exec_eq_some hst
      exact ih p krnl h

/-- All loaded processes have the same memory map. -/
theorem memoryMap_shared {s : State} (hs : system.Reachable s) {p q : ℕ}
    (hp : s.krnl p ≠ none) (hq : s.krnl q ≠ none) : memoryMap s p = memoryMap s q := by
  obtain ⟨krnl, hkrnl⟩ := Option.ne_none_iff_exists'.mp hp
  obtain ⟨krnl', hkrnl'⟩ := Option.ne_none_iff_exists'.mp hq
  have heq : krnl = krnl' := (krnl_eq_os hs p krnl hkrnl).trans (krnl_eq_os hs q krnl' hkrnl').symm
  unfold memoryMap
  rw [hkrnl, hkrnl', heq]

/-- When a process is loaded, every loaded one gets the fresh map. -/
theorem memoryMap_load {s : State} (hs : system.Reachable s) {p : ℕ} (hp : s.krnl p ≠ none)
    (q : ℕ) (raw : MmStruct) : memoryMap (load s q raw) p = some raw := by
  have hkrnl : (load s q raw).krnl p = some osAddr := by
    rcases eq_or_ne p q with rfl | hpq
    · rw [load_krnl_self]
    · obtain ⟨krnl, hkrnl⟩ := Option.ne_none_iff_exists'.mp hp
      rw [load_krnl_of_ne hpq, hkrnl, krnl_eq_os hs p krnl hkrnl]
  rw [memoryMap_eq hkrnl (load_krnls_mm s q raw), load_mms,
    List.getElem?_concat_length]

/-- An operation of one process turns the map of every loaded one into the map
it leaves behind. -/
theorem memoryMap_exec {s t : State} (hs : system.Reachable s) {p q : ℕ} {op : Op}
    (hp : s.krnl p ≠ none) (h : exec s q op = some t) :
    ∃ map mswp result, memoryMap s p = some map ∧ op.run ⟨map, mswp⟩ = .ok result ∧
      memoryMap t p = some result.mm := by
  obtain ⟨krnl, mm, map, result, hkrnl, hmm, hmap, hrun, rfl⟩ := exec_eq_some h
  obtain ⟨krnl', hkrnl'⟩ := Option.ne_none_iff_exists'.mp hp
  have heq : krnl' = krnl := (krnl_eq_os hs p krnl' hkrnl').trans (krnl_eq_os hs q krnl hkrnl).symm
  subst heq
  obtain ⟨hlt, -⟩ := List.getElem?_eq_some_iff.mp hmap
  refine ⟨map, _, result, (memoryMap_eq hkrnl' hmm).trans hmap, hrun, ?_⟩
  rw [memoryMap_eq (s := s.store krnl' mm result) hkrnl' ((store_krnls_mm ..).trans hmm), store_mms,
    List.getElem?_set_self hlt]

/-! ## Operations that are refused -/

/-- The operation ends before it writes anything: an index that the bound test
refuses, a register without a region, no vm area, or no page in the FIFO. -/
def Op.Refused (mm : MmStruct) : Op → Prop
  | .alloc _ _ => False
  | .free regIndex => regIndex.toInt < 0 ∨ regIndex.toInt > 30 ∨
      ∃ r : Fin pagingMaxSymtblSz, regIndex.toNat = r ∧ mm.symrgtbl r = ⟨0, 0⟩
  | .read _ _ _ => mm.fifoPgn = []
  | .write _ destination _ => mm.mmap = [] ∨ mm.fifoPgn = [] ∨
      destination.toInt < 0 ∨ destination.toInt > 30

theorem pgAccess_of_nil {krnl krnl' : Krnl} {addr : BitVec 32} {val : ℤ}
    (hfifo : krnl.mm.fifoPgn = []) (h : pgAccess krnl addr = .ok (val, krnl')) : krnl' = krnl := by
  unfold pgAccess at h
  rw [pgGetpage_eq, hfifo] at h
  cases h
  rfl

theorem libfree_of_refused {krnl krnl' : Krnl} {regIndex : BitVec 32} {val : ℤ}
    (href : (Op.free regIndex).Refused krnl.mm)
    (h : libfree krnl regIndex = .ok (val, krnl')) : krnl' = krnl := by
  have hrefused : libfree krnl regIndex = .ok (-1, krnl) := by
    rcases href with href | href | ⟨r, hreg, hempty⟩
    · exact libfree_outside ((toInt_outside_iff regIndex).mp (.inl href))
    · exact libfree_outside ((toInt_outside_iff regIndex).mp (.inr href))
    · exact libfree_empty hreg hempty
  cases hrefused.symm.trans h
  rfl

theorem libread_of_refused {krnl krnl' : Krnl} {source destination : BitVec 32} {offset : Addr}
    {data : BitVec 8} {val : ℤ} (href : (Op.read source offset data).Refused krnl.mm)
    (h : libread krnl source offset data = .ok (val, destination, krnl')) : krnl' = krnl := by
  obtain ⟨-, -, r, -, val', hpage⟩ := libread_eq_ok_iff.mp h
  exact pgAccess_of_nil href hpage

theorem libwrite_of_refused {krnl krnl' : Krnl} {destination : BitVec 32} {offset : Addr}
    {data : BitVec 8} {val : ℤ} (href : (Op.write data destination offset).Refused krnl.mm)
    (h : libwrite krnl data destination offset = .ok (val, krnl')) : krnl' = krnl := by
  rcases href with hmmap | hfifo | hdest
  · cases (libwrite_null (getVmaByNum_nil hmmap 0)).symm.trans h
    rfl
  · rcases libwrite_eq_ok h with ⟨-, hsame, -⟩ | ⟨-, r, -, val', hpage⟩
    · exact hsame
    · exact pgAccess_of_nil hfifo hpage
  · rcases libwrite_eq_ok h with ⟨-, hsame, -⟩ | ⟨-, r, hreg, -⟩
    · exact hsame
    · have hgt := (toInt_outside_iff destination).mp hdest
      exact absurd r.isLt (hreg ▸ hgt).not_gt

/-- A refused operation leaves the kernel as it was. -/
theorem Op.run_of_refused {krnl krnl' : Krnl} {op : Op} (href : op.Refused krnl.mm)
    (h : op.run krnl = .ok krnl') : krnl' = krnl := by
  cases op with
  | alloc size regIndex => exact href.elim
  | free regIndex =>
    obtain ⟨⟨val, krnl₁⟩, hlib, rfl⟩ := map_eq_ok.mp h
    exact libfree_of_refused href hlib
  | read source offset data =>
    obtain ⟨⟨val, destination, krnl₁⟩, hlib, rfl⟩ := map_eq_ok.mp h
    exact libread_of_refused href hlib
  | write data destination offset =>
    obtain ⟨⟨val, krnl₁⟩, hlib, rfl⟩ := map_eq_ok.mp h
    exact libwrite_of_refused href hlib

/-! ## Runs of another process -/

/-- The step is one of `q`, and `p` is not loaded yet or the step is an operation
that is refused. -/
def Quiet (p q : ℕ) (s : State) (a : Action) (_ : State) : Prop :=
  a.proc = q ∧ (s.krnl p = none ∨
    ∃ op map, a = .exec q op ∧ memoryMap s q = some map ∧ op.Refused map)

theorem memoryMap_store_self {s : State} {mm : ℕ} {result : Krnl}
    (h : s.mms[mm]? = some result.mm) (krnl p : ℕ) :
    memoryMap (s.store krnl mm result) p = memoryMap s p := by
  have hset : s.mms.set mm result.mm = s.mms := by
    obtain ⟨hlt, hget⟩ := List.getElem?_eq_some_iff.mp h
    rw [← hget, List.set_getElem_self]
  unfold memoryMap
  rw [store_krnl, store_mms, hset]
  simp only [store_krnls_mm]

/-- A quiet step leaves the map of `p` as it was. -/
theorem memoryMap_step {p q : ℕ} (hpq : p ≠ q) {s t : State} {a : Action}
    (hst : (system.restrict (Quiet p q)).step s a t) : memoryMap t p = memoryMap s p := by
  obtain ⟨hst, hproc, hquiet⟩ := hst
  rcases hquiet with hnew | ⟨op, map, rfl, hmap, href⟩
  · rw [memoryMap_of_not_loaded hnew]
    refine memoryMap_of_not_loaded ?_
    cases a with
    | load q' raw =>
      cases hst
      have hpq' : p ≠ q' := fun heq => hpq (heq.trans hproc)
      rw [load_krnl_of_ne hpq', hnew]
    | exec q' op =>
      obtain ⟨_, _, _, _, _, _, _, _, rfl⟩ := exec_eq_some hst
      exact hnew
  · obtain ⟨krnl, mm, map', result, hkrnl, hmm, hmap', hrun, rfl⟩ := exec_eq_some hst
    rw [memoryMap_eq hkrnl hmm, hmap'] at hmap
    cases hmap
    have hsame := Op.run_of_refused href hrun
    exact memoryMap_store_self (hsame ▸ hmap') krnl p

/-- The memory map of a process is not touched in a run in which another one,
while the first is loaded, is not loaded and does only what is refused. -/
theorem memoryMap_unchanged {p q : ℕ} (hpq : p ≠ q) {s t : State} {tr : List Action}
    (hr : (system.restrict (Quiet p q)).Run s tr t) : memoryMap t p = memoryMap s p :=
  hr.invariant (I := fun u => memoryMap u p = memoryMap s p) rfl
    fun _ _ _ ih hst => (memoryMap_step hpq hst).trans ih

/-- The processes 1 and 2, loaded one after the other. -/
def bothLoaded : State :=
  load (load (boot ⟨[]⟩) 1 bareKrnl.mm) 2 bareKrnl.mm

/-- Process 2 frees a register that holds no region, and reads while no page is
listed. -/
theorem memoryMap_unchanged_bothLoaded :
    ∃ t, system.Run bothLoaded [.exec 2 (.free 4), .exec 2 (.read 4 0 90)] t ∧
      memoryMap t 1 = memoryMap bothLoaded 1 := by
  let L := system.restrict (Quiet 1 2)
  have hexec : exec bothLoaded 2 (.free 4) = some (bothLoaded.store osAddr 1 bareKrnl) := rfl
  have hexec' : exec (bothLoaded.store osAddr 1 bareKrnl) 2 (.read 4 0 90) =
      some ((bothLoaded.store osAddr 1 bareKrnl).store osAddr 1 bareKrnl) := rfl
  have hfree : L.step bothLoaded (.exec 2 (.free 4)) (bothLoaded.store osAddr 1 bareKrnl) :=
    ⟨hexec, rfl, .inr ⟨_, bareKrnl.mm, rfl, rfl, .inr (.inr ⟨4, rfl, rfl⟩)⟩⟩
  have hread : L.step (bothLoaded.store osAddr 1 bareKrnl) (.exec 2 (.read 4 0 90))
      ((bothLoaded.store osAddr 1 bareKrnl).store osAddr 1 bareKrnl) :=
    ⟨hexec', rfl, .inr ⟨_, bareKrnl.mm, rfl, rfl, rfl⟩⟩
  have hrun : L.Run bothLoaded [.exec 2 (.free 4), .exec 2 (.read 4 0 90)] _ :=
    .snoc (.snoc .nil hfree) hread
  exact ⟨_, hrun.of_restrict, memoryMap_unchanged (by decide) hrun⟩

/-- Process 1 has a region when process 2 is loaded, and has none afterwards; an
allocation of process 2 then shows up in the symbol table of process 1. -/
theorem memoryMap_not_isolated :
    ∃ s t u, system.Run (boot ⟨[]⟩) [.load 1 bareKrnl.mm, .exec 1 (.alloc 100 0)] s ∧
      system.Run s [.load 2 bareKrnl.mm] t ∧ system.Run t [.exec 2 (.alloc 60 5)] u ∧
      memoryMap t 1 ≠ memoryMap s 1 ∧ memoryMap u 1 ≠ memoryMap t 1 := by
  have hrun : ∀ {s t : State} {tr : List Action}, tr.foldlM State.next s = some t →
      system.Run s tr t := Lts.Run.of_foldlM fun _ _ _ hst => hst
  refine ⟨_, _, _, hrun rfl, hrun rfl, hrun rfl, ?_, ?_⟩
  · intro h
    have hregion := congrArg (Option.map fun mm => mm.symrgtbl 0) h
    exact absurd hregion (by decide)
  · intro h
    have hregion := congrArg (Option.map fun mm => mm.symrgtbl 5) h
    exact absurd hregion (by decide)

end Isolation

end SimpleOs
