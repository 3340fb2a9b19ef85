import SimpleOs.Lib.Serial
import SimpleOs.MmLock
import SimpleOs.Teardown

/-!
# The calls under the lock, one after the other

The functions of `Libmem` take one step each on a kernel whose lists are values. In
`MmLock` any number of threads run their statements on linked lists in memory. The
second refines the first as long as no thread in `libread`, which takes no lock, finds
a page in the FIFO.

Result: `acts_serially`: after any interleaving the calls that are over have acted one
after the other, with the calls of each thread in its order, and while nobody holds the
lock the memory holds the kernel behind them. A call that holds the lock needs no other
thread to come to its end.
-/

namespace SimpleOs

namespace MmLock

open LinkedList MmStruct Libmem Mutex

/-! ## The calls on values -/

/-- The kernel and RAM, with their lists as values. -/
structure World where
  krnl : Krnl
  mram : Memphy Addr

/-- One round of the loop of `free_pcb_memph`. -/
def World.freePage (w : World) (pagenum : ℕ) : World :=
  let pte := (w.krnl.mm.pgd pagenum).setWidth 32
  if Pte.pagingPagePresent pte then
    { w with mram := w.mram.putFreefp ((Pte.pagingFpn pte).signExtend 64) }
  else
    { w with krnl := { w.krnl with
        activeMswp := w.krnl.activeMswp.putFreefp ((Pte.pagingSwp pte).signExtend 64) } }

/-- The frames that the walk gives back are those of `Pte.freePcbMemph`, whose numbers
are 32 bits wide. -/
theorem foldl_freePage_frames (pages : List ℕ) {w : World}
    {mp : Memphy (BitVec 32) × Memphy (BitVec 32)}
    (hram : w.mram.freeFpList = mp.1.freeFpList.map (BitVec.signExtend 64))
    (hswap : w.krnl.activeMswp.freeFpList = mp.2.freeFpList.map (BitVec.signExtend 64)) :
    (pages.foldl World.freePage w).mram.freeFpList =
        (pages.foldl (Pte.freePage fun pgn => (w.krnl.mm.pgd pgn).setWidth 32)
          mp).1.freeFpList.map (BitVec.signExtend 64) ∧
      (pages.foldl World.freePage w).krnl.activeMswp.freeFpList =
        (pages.foldl (Pte.freePage fun pgn => (w.krnl.mm.pgd pgn).setWidth 32)
          mp).2.freeFpList.map (BitVec.signExtend 64) := by
  induction pages generalizing w mp with
  | nil => exact ⟨hram, hswap⟩
  | cons p pages ih =>
    rw [List.foldl_cons, List.foldl_cons, World.freePage, Pte.freePage]
    by_cases hp : Pte.pagingPagePresent ((w.krnl.mm.pgd p).setWidth 32) = true
    · rw [if_pos hp, if_pos hp]
      exact ih (congrArg (List.cons _) hram) hswap
    · rw [if_neg hp, if_neg hp]
      exact ih hram (congrArg (List.cons _) hswap)

/-- A call as one step. The value that `libwrite` is given goes nowhere, and `libread`
leaves its own out. -/
def World.call (w : World) : Call → Except Fault World
  | .liballoc size regIndex =>
    (liballoc w.krnl size regIndex).map fun res => { w with krnl := res.2 }
  | .libfree regIndex => (libfree w.krnl regIndex).map fun res => { w with krnl := res.2 }
  | .libread source offset =>
    (libread w.krnl source offset 0).map fun res => { w with krnl := res.2.2 }
  | .libwrite destination offset =>
    (libwrite w.krnl 0 destination offset).map fun res => { w with krnl := res.2 }
  | .freePcbMemph => .ok ((List.range Pte.pagingMaxPgn).foldl World.freePage w)

/-- The memory holds the kernel. -/
structure Represents (mem : Shared) (w : World) : Prop where
  pgd : mem.pgd = w.krnl.mm.pgd
  mmap : mem.mmap = w.krnl.mm.mmap
  symrgtbl : mem.symrgtbl = w.krnl.mm.symrgtbl
  pgnHeap : mem.pgnHeap.Bounded
  fifoPgn : Fifo.Holds ⟨mem.pgnHeap, mem.fifoPgn⟩ w.krnl.mm.fifoPgn
  fpHeap : mem.fpHeap.Bounded
  frames : ∃ ram swap, Linked mem.fpHeap mem.mram ram ∧ Linked mem.fpHeap mem.activeMswp swap ∧
    ram.map Prod.snd = w.mram.freeFpList ∧ swap.map Prod.snd = w.krnl.activeMswp.freeFpList ∧
    (ram.map Prod.fst).Disjoint (swap.map Prod.fst)

/-- All calls but `libread` take the lock. -/
def Call.locks : Call → Bool
  | .libread .. => false
  | _ => true

/-- In `libread` as long as it has found no page. -/
def Pos.reads : Pos → Bool
  | .readSymrg .. | .faulted false => true
  | .victimHead who _ => who = .read
  | _ => false

variable {malloc : Malloc Addr} {mem mem' m : Shared} {w : World} {c : Call}

/-! ## Sections -/

theorem next_give {p p' : Pos} (h : next malloc mem p = some (.give, p', mem')) : p' = .idle := by
  revert h
  fun_cases next malloc mem p
  all_goals
    intro h
    simp only [Option.some.injEq, Prod.mk.injEq, reduceCtorEq, false_and] at h
  exact h.2.1.symm

theorem next_reads {p p' : Pos} {act : LockAct} (hreads : p.reads = true) (hok : NoVictim mem p)
    (h : next malloc mem p = some (act, p', mem')) :
    act = .keep ∧ mem' = mem ∧ (p' = .idle ∨ p'.reads = true) := by
  cases p with
  | faulted held => cases h
  | readSymrg rgid offset =>
    simp only [next] at h
    split at h
    · cases h
      exact ⟨rfl, rfl, .inr rfl⟩
    · cases h
      exact ⟨rfl, rfl, .inr rfl⟩
  | victimHead who pgn =>
    cases who with
    | write => cases hreads
    | read =>
      simp only [next, hok pgn rfl] at h
      cases h
      exact ⟨rfl, rfl, .inl rfl⟩
  | _ => cases hreads

theorem sections (malloc : Malloc Addr) :
    (program malloc).Sections Call.locks Pos.locked Pos.reads NoVictim where
  discipline := discipline malloc
  idle _ := rfl
  entry c := by cases c <;> nofun
  bareIdle := rfl
  first c mem act p mem' hc h := by
    cases c with
    | libread => cases hc
    | _ =>
      cases h
      exact ⟨rfl, rfl⟩
  last mem p p' mem' h := next_give h
  bareEntry c hc := by
    cases c with
    | libread => rfl
    | _ => cases hc
  bareNext mem p act p' mem' hreads hok h := next_reads hreads hok h

/-! ## What a call does alone -/

/-- A call on the memory `m` comes to its end as it does on values. -/
def Simulates (malloc : Malloc Addr) (c : Call) (m : Shared) : Except Fault World → Prop
  | .ok w' => ∃ mem', (program malloc).serial.step m c mem' ∧ Represents mem' w'
  | .error _ => ∃ mem', (program malloc).Inside c m (.faulted true, mem')

theorem simulates_unlock {w' : World} (hin : (program malloc).Inside c m (.unlock, mem'))
    (hrep : Represents mem' w') : Simulates malloc c m (.ok w') :=
  ⟨mem', ⟨_, hin, rfl⟩, hrep⟩

/-! ### Allocating -/

/-- The search for a free region depends on the areas only, and changes nothing else. -/
theorem getFreeVmrgArea_mmap {mm₁ mm₂ : MmStruct} (hmmap : mm₁.mmap = mm₂.mmap) (vmaid : ℤ)
    (size : BitVec 32) :
    getFreeVmrgArea mm₁ vmaid size = (getFreeVmrgArea mm₂ vmaid size).map fun res =>
      (res.1, { mm₁ with mmap := res.2.mmap }) := by
  have hself : mm₁ = { mm₁ with mmap := mm₂.mmap } := by rw [← hmmap]
  have hcur : getVmaByNum mm₁ vmaid = getVmaByNum mm₂ vmaid := by
    unfold getVmaByNum
    rw [hmmap]
  unfold getFreeVmrgArea
  rw [hcur]
  cases getVmaByNum mm₂ vmaid with
  | error e => rfl
  | ok result =>
    cases result with
    | none => rfl
    | some cur =>
      simp only [ok_bind]
      cases takeFreerg (size.signExtend 64) cur.vma.vmFreergList with
      | none => exact congrArg (fun mm => Except.ok (none, mm)) hself
      | some taken =>
        dsimp only
        split <;> rfl

theorem allocRg_eq {size : Addr} (hmmap : mem.mmap = w.krnl.mm.mmap) :
    allocRg mem.mm size = allocRg w.krnl.mm size := by
  have hcur : getVmaByNum mem.mm 0 = getVmaByNum w.krnl.mm 0 := by
    unfold getVmaByNum Shared.mm
    rw [hmmap]
  have hfree := getFreeVmrgArea_mmap (show mem.mm.mmap = w.krnl.mm.mmap from hmmap) 0
    (size.setWidth 32)
  unfold allocRg
  rw [hcur, hfree]
  cases getVmaByNum w.krnl.mm 0 with
  | error e => cases getFreeVmrgArea w.krnl.mm 0 (size.setWidth 32) <;> rfl
  | ok curVma =>
    cases getFreeVmrgArea w.krnl.mm 0 (size.setWidth 32) with
    | error e => cases curVma <;> rfl
    | ok res =>
      obtain ⟨rgnode, mm'⟩ := res
      cases curVma <;> cases rgnode <;> rfl

/-- `liballoc` by the region that it records. -/
theorem liballoc_eq (krnl : Krnl) (size : Addr) (reg : BitVec 32) :
    (∃ e, liballoc krnl size reg = .error e ∧ allocRg krnl.mm size = none) ∨
    ∃ rgnode mmap, allocRg krnl.mm size = some (rgnode, mmap) ∧
      ((∃ e, liballoc krnl size reg = .error e ∧ symIndex reg.toInt = .error e) ∨
        ∃ r, symIndex reg.toInt = .ok r ∧
          liballoc krnl size reg = .ok (0, { krnl with mm := { krnl.mm with
            mmap := mmap, symrgtbl := Function.update krnl.mm.symrgtbl r rgnode } })) := by
  cases hvma : getVmaByNum krnl.mm 0 with
  | error e =>
    refine .inl ⟨e, liballoc_error hvma, ?_⟩
    unfold allocRg
    rw [hvma]
  | ok curVma =>
    cases curVma with
    | none =>
      have hfree : getFreeVmrgArea krnl.mm 0 (size.setWidth 32) = .error .nullDeref := by
        unfold getFreeVmrgArea
        rw [hvma]
        rfl
      refine .inl ⟨_, liballoc_null hvma, ?_⟩
      unfold allocRg
      rw [hvma, hfree]
    | some cur =>
      obtain ⟨rgnode, mm', harea⟩ := getFreeVmrgArea_ok hvma (size.setWidth 32)
      have hmm : mm' = { krnl.mm with mmap := mm'.mmap } := by
        have hself := getFreeVmrgArea_mmap (rfl : krnl.mm.mmap = krnl.mm.mmap) 0 (size.setWidth 32)
        rw [harea] at hself
        exact congrArg Prod.snd (Except.ok.inj hself)
      -- Both branches record a region in `mm'`.
      obtain ⟨rg, hrg, hserved⟩ : ∃ rg, allocRg krnl.mm size = some (rg, mm'.mmap) ∧
          ∀ r : Fin pagingMaxSymtblSz, reg.toNat = r → liballoc krnl size reg =
            .ok (0, { krnl with mm := { mm' with
              symrgtbl := Function.update mm'.symrgtbl r rg } }) := by
        unfold allocRg
        rw [hvma, harea]
        cases rgnode with
        | none => exact ⟨_, rfl, fun r hreg => liballoc_notFound hvma hreg harea⟩
        | some newrg => exact ⟨_, rfl, fun r hreg => liballoc_served hreg harea⟩
      refine .inr ⟨rg, mm'.mmap, hrg, ?_⟩
      rcases Nat.lt_or_ge reg.toNat pagingMaxSymtblSz with hlt | hge
      · obtain ⟨r, hreg⟩ : ∃ r : Fin pagingMaxSymtblSz, reg.toNat = r := ⟨⟨_, hlt⟩, rfl⟩
        refine .inr ⟨r, by rw [toInt_of_toNat hreg, symIndex_ok], ?_⟩
        rw [hserved r hreg, hmm]
      · exact .inl ⟨_, liballoc_outside hvma hge, symIndex_outside hge⟩

theorem simulates_liballoc (malloc : Malloc Addr) (hrep : Represents mem w) (size : Addr)
    (reg : BitVec 32) :
    Simulates malloc (.liballoc size reg) mem (w.call (.liballoc size reg)) := by
  have hin : (program malloc).Inside (.liballoc size reg) mem (.allocArea size reg.toInt, mem) :=
    ⟨_, rfl, .refl⟩
  rcases liballoc_eq w.krnl size reg with ⟨e, he, hnone⟩ | ⟨rgnode, mmap, hsome, hreg⟩
  · have hnext : next malloc mem (.allocArea size reg.toInt) =
        some (.keep, .faulted true, mem) := by
      simp only [next, allocRg_eq hrep.mmap, hnone]
    rw [World.call, he]
    exact ⟨mem, hin.keep hnext⟩
  · let mem₁ : Shared := { mem with mmap := mmap }
    have harea : next malloc mem (.allocArea size reg.toInt) =
        some (.keep, .allocSymrg reg.toInt rgnode, mem₁) := by
      simp only [next, allocRg_eq hrep.mmap, hsome, mem₁]
    rcases hreg with ⟨e, he, hsym⟩ | ⟨r, hsym, hok⟩
    · have hsymrg : next malloc mem₁ (.allocSymrg reg.toInt rgnode) =
          some (.keep, .faulted true, mem₁) := by
        simp only [next, hsym]
      rw [World.call, he]
      exact ⟨mem₁, (hin.keep harea).keep hsymrg⟩
    · have hsymrg : next malloc mem₁ (.allocSymrg reg.toInt rgnode) = some (.keep, .unlock,
          { mem₁ with symrgtbl := Function.update mem.symrgtbl r rgnode }) := by
        simp only [next, hsym, mem₁]
      rw [World.call, hok]
      refine simulates_unlock ((hin.keep harea).keep hsymrg)
        { hrep with mmap := rfl, symrgtbl := ?_ }
      exact congrArg (Function.update · r rgnode) hrep.symrgtbl

/-! ### Freeing -/

theorem simulates_libfree (malloc : Malloc Addr) (hrep : Represents mem w) (reg : BitVec 32) :
    Simulates malloc (.libfree reg) mem (w.call (.libfree reg)) := by
  have hin : (program malloc).Inside (.libfree reg) mem (.freeTest reg.toInt, mem) :=
    ⟨_, rfl, .refl⟩
  rcases Nat.lt_trichotomy reg.toNat pagingMaxSymtblSz with hlt | heq | hgt
  · obtain ⟨r, hreg⟩ : ∃ r : Fin pagingMaxSymtblSz, reg.toNat = r := ⟨⟨_, hlt⟩, rfl⟩
    have hsym : symIndex reg.toInt = .ok r := by rw [toInt_of_toNat hreg, symIndex_ok]
    have hrefused : ¬ (reg.toInt < 0 ∨ reg.toInt > pagingMaxSymtblSz) := by
      rw [toInt_of_toNat hreg]
      exact not_refused_of_fin r
    rcases eq_or_ne (w.krnl.mm.symrgtbl r) ⟨0, 0⟩ with hempty | hrg
    · have htest : next malloc mem (.freeTest reg.toInt) = some (.keep, .unlock, mem) := by
        simp only [next, hrefused, hsym, hrep.symrgtbl, hempty, if_true, if_false]
      rw [World.call, libfree_empty hreg hempty]
      exact simulates_unlock (hin.keep htest) hrep
    · let rgnode := w.krnl.mm.symrgtbl r
      let mem₁ : Shared := { mem with symrgtbl := Function.update mem.symrgtbl r ⟨0, 0⟩ }
      have htest : next malloc mem (.freeTest reg.toInt) =
          some (.keep, .freeSymrg r rgnode, mem) := by
        simp only [next, hrefused, hsym, hrep.symrgtbl, hrg, if_false, rgnode]
      have hsymrg : next malloc mem (.freeSymrg r rgnode) =
          some (.keep, .freeEnlist rgnode, mem₁) := rfl
      replace hin := (hin.keep htest).keep hsymrg
      have hsymrgtbl : mem₁.symrgtbl = Function.update w.krnl.mm.symrgtbl r ⟨0, 0⟩ :=
        congrArg (Function.update · r ⟨0, 0⟩) hrep.symrgtbl
      rw [World.call, libfree_region hreg hrg]
      have hmmap : mem.mmap = w.krnl.mm.mmap := hrep.mmap
      cases hareas : w.krnl.mm.mmap with
      | nil =>
        rw [hareas] at hmmap
        have henlist : next malloc mem₁ (.freeEnlist rgnode) =
            some (.keep, .faulted true, mem₁) := by
          simp only [next, enlistVmFreergList, Shared.mm, mem₁, hmmap]
        simp only [enlistVmFreergList, hareas]
        exact ⟨mem₁, hin.keep henlist⟩
      | cons vma after =>
        rw [hareas] at hmmap
        by_cases hge : rgnode.rgStart ≥ rgnode.rgEnd
        · have henlist : next malloc mem₁ (.freeEnlist rgnode) = some (.keep, .unlock, mem₁) := by
            simp only [next, enlistVmFreergList, Shared.mm, mem₁, hmmap, hge, if_true]
          simp only [enlistVmFreergList, hareas, rgnode] at hge ⊢
          rw [if_pos hge]
          exact simulates_unlock (hin.keep henlist)
            { hrep with mmap := hmmap, symrgtbl := hsymrgtbl }
        · let areas := { vma with vmFreergList := rgnode :: vma.vmFreergList } :: after
          have henlist : next malloc mem₁ (.freeEnlist rgnode) =
              some (.keep, .unlock, { mem₁ with mmap := areas }) := by
            simp only [next, enlistVmFreergList, Shared.mm, mem₁, hmmap, hge, if_false, areas]
          simp only [enlistVmFreergList, hareas, rgnode] at hge ⊢
          rw [if_neg hge]
          exact simulates_unlock (hin.keep henlist)
            { hrep with mmap := rfl, symrgtbl := hsymrgtbl }
  · have hsym : symIndex reg.toInt = .error .outOfBounds := symIndex_outside heq.ge
    have htest : next malloc mem (.freeTest reg.toInt) = some (.keep, .faulted true, mem) := by
      simp only [next, not_refused_behind heq, hsym, if_false]
    rw [World.call, libfree_behind heq]
    exact ⟨mem, hin.keep htest⟩
  · have htest : next malloc mem (.freeTest reg.toInt) = some (.keep, .unlock, mem) := by
      simp only [next, (toInt_outside_iff reg).mpr hgt, if_true]
    rw [World.call, libfree_outside hgt]
    exact simulates_unlock (hin.keep htest) hrep

/-! ### Writing -/

/-- The walk to the last node. -/
theorem walk_inside {pgn : Addr} {cells : List (ℕ × Addr)} {a b : ℕ} {v : Addr} {prev : Option ℕ}
    (hin : (program malloc).Inside c m (.victimWalk .write pgn prev a, mem))
    (hchain : Chain mem.pgnHeap (some a) (cells ++ [(b, v)]) none) :
    (program malloc).Inside c m
      (.victimUnlink .write pgn ((cells.getLast?.map Prod.fst).or prev) b, mem) := by
  induction cells generalizing a prev with
  | nil =>
    obtain ⟨⟨⟩, next', hnode, rfl⟩ := hchain
    have hnext : next malloc mem (.victimWalk .write pgn prev b) =
        some (.keep, .victimUnlink .write pgn prev b, mem) := by
      simp only [next, hnode]
    exact hin.keep hnext
  | cons cell cells ih =>
    obtain ⟨d, u⟩ := cell
    obtain ⟨⟨⟩, next', hnode, hrest⟩ := hchain
    obtain ⟨e, rfl⟩ : ∃ e, next' = some e := by
      cases cells with
      | nil => exact ⟨_, hrest.1⟩
      | cons cell cells => exact ⟨_, hrest.1⟩
    have hnext : next malloc mem (.victimWalk .write pgn prev a) =
        some (.keep, .victimWalk .write pgn (some a) e, mem) := by
      simp only [next, hnode]
    have hlast := ih (hin.keep hnext) hrest
    cases cells with
    | nil => exact hlast
    | cons cell cells =>
      obtain ⟨last, hsome⟩ : ∃ last, (cell :: cells).getLast? = some last :=
        ⟨_, List.getLast?_eq_some_getLast (List.cons_ne_nil cell cells)⟩
      rw [List.getLast?_cons_cons]
      rw [hsome] at hlast ⊢
      exact hlast

/-- From the test of the swap device on, with the victim off the list. -/
theorem frame_inside {pgn : Addr} (hrep : Represents mem w)
    (hin : (program malloc).Inside c m (.frameHead .write pgn, mem)) :
    match w.krnl.activeMswp.getFreefp with
    | none => (program malloc).Inside c m (.unlock, mem)
    | some (_, mswp) => ∃ mem', (program malloc).Inside c m (.unlock, mem') ∧
        Represents mem' { w with krnl := { activeMswp := mswp, mm := { w.krnl.mm with
          fifoPgn := Fifo.enlistPgn w.krnl.mm.fifoPgn pgn } } } := by
  obtain ⟨ram, swap, hram, hswap, hramVals, hswapVals, hdisj⟩ := hrep.frames
  unfold Memphy.getFreefp
  rw [← hswapVals]
  cases swap with
  | nil =>
    have hhead : mem.activeMswp = none := hswap.chain
    have hnext : next malloc mem (.frameHead .write pgn) = some (.keep, .unlock, mem) := by
      simp only [next, hhead, afterPage]
    exact hin.keep hnext
  | cons cell swap =>
    obtain ⟨fp, fpn⟩ := cell
    obtain ⟨hhead, next', hnode, hrest⟩ := hswap.pop
    let mem₁ : Shared := { mem with activeMswp := next' }
    let mem₂ : Shared := { mem₁ with fpHeap := Function.update mem.fpHeap fp none }
    let pnode := malloc.addr mem.pgnHeap
    let mem₃ : Shared := { mem₂ with
      pgnHeap := Function.update mem.pgnHeap pnode (some ⟨pgn, mem.fifoPgn⟩) }
    have hhead' : next malloc mem (.frameHead .write pgn) =
        some (.keep, .frameTake .write pgn fp, mem) := by
      simp only [next, hhead]
    have htake : next malloc mem (.frameTake .write pgn fp) =
        some (.keep, .frameFree .write pgn fp, mem₁) := by
      simp only [next, hnode, mem₁]
    have hfree : next malloc mem₁ (.frameFree .write pgn fp) =
        some (.keep, .enlistNode .write pgn, mem₂) := by
      simp only [next, hnode, mem₁, mem₂]
    have hnew : next malloc mem₂ (.enlistNode .write pgn) =
        some (.keep, .enlistLink .write pnode, mem₃) := rfl
    have hlink : next malloc mem₃ (.enlistLink .write pnode) =
        some (.keep, .unlock, { mem₃ with fifoPgn := some pnode }) := rfl
    refine ⟨_, ((((hin.keep hhead').keep htake).keep hfree).keep hnew).keep hlink, ?_⟩
    have hne : fp ∉ ram.map Prod.fst := fun hmem => hdisj hmem List.mem_cons_self
    exact {
      hrep with
      pgnHeap := hrep.pgnHeap.update _ _
      fifoPgn := Fifo.Holds.enlist hrep.fifoPgn malloc hrep.pgnHeap pgn
      fpHeap := hrep.fpHeap.update _ _
      frames := ⟨ram, swap, ⟨hram.chain.update_of_not_mem hne _, hram.nodup⟩, hrest, hramVals, rfl,
        fun a ha ha' => hdisj ha (List.mem_cons_of_mem _ ha')⟩ }

theorem simulates_getpage (hrep : Represents mem w) (pgn : BitVec 32)
    (hin : (program malloc).Inside c m (.victimHead .write (pgn.signExtend 64), mem)) :
    Simulates malloc c m ((pgGetpage w.krnl pgn).map fun res => { w with krnl := res.2 }) := by
  rw [pgGetpage_eq]
  obtain ⟨pgns, hpgns⟩ : ∃ pgns, w.krnl.mm.fifoPgn = pgns := ⟨_, rfl⟩
  have hfifo := hrep.fifoPgn
  rw [hpgns] at hfifo ⊢
  rcases List.eq_nil_or_concat' pgns with rfl | ⟨front, v, rfl⟩
  · have hhead : mem.fifoPgn = none := exists_linked_nil_iff.mp hfifo
    have hnext : next malloc mem (.victimHead .write (pgn.signExtend 64)) =
        some (.keep, .unlock, mem) := by
      simp only [next, hhead, afterPage]
    rw [Fifo.findVictim_nil]
    exact simulates_unlock (hin.keep hnext) hrep
  · obtain ⟨cells, hlinked, hcells⟩ := hfifo
    obtain ⟨cells, cell, rfl, hfront, hlast⟩ := List.map_eq_append_iff.mp hcells
    obtain ⟨⟨b, v⟩, rfl, rfl⟩ := List.map_eq_singleton_iff.mp hlast
    obtain ⟨head, hhead⟩ : ∃ head, mem.fifoPgn = some head := by
      have hchain := hlinked.chain
      cases cells with
      | nil => exact ⟨_, hchain.1⟩
      | cons cell cells => exact ⟨_, hchain.1⟩
    have hnext : next malloc mem (.victimHead .write (pgn.signExtend 64)) =
        some (.keep, .victimWalk .write (pgn.signExtend 64) none head, mem) := by
      simp only [next, hhead]
    have hunlink := walk_inside (hin.keep hnext) (hhead ▸ hlinked.chain)
    rcases List.eq_nil_or_concat' front with rfl | ⟨front, p, rfl⟩
    · obtain rfl := List.map_eq_nil_iff.mp hfront
      have hfault : next malloc mem (.victimUnlink .write (pgn.signExtend 64) none b) =
          some (.keep, .faulted true, mem) := rfl
      rw [List.nil_append, Fifo.findVictim_singleton]
      exact ⟨mem, hunlink.keep hfault⟩
    · obtain ⟨cells, cell, rfl, rfl, hlast⟩ := List.map_eq_append_iff.mp hfront
      obtain ⟨⟨a, p⟩, rfl, rfl⟩ := List.map_eq_singleton_iff.mp hlast
      obtain ⟨ha, hb, hrest⟩ := Linked.dropLast (by simpa using hlinked)
      have hba : b ≠ a := by
        rintro rfl
        rw [ha] at hb
        cases hb
      let heap₁ := Function.update mem.pgnHeap a (some ⟨p, none⟩)
      let mem₁ : Shared := { mem with pgnHeap := heap₁ }
      let mem₂ : Shared := { mem with pgnHeap := Function.update heap₁ b none }
      have hunlinked : next malloc mem (.victimUnlink .write (pgn.signExtend 64) (some a) b) =
          some (.keep, .victimFree .write (pgn.signExtend 64) b, mem₁) := by
        simp only [next, ha, mem₁, heap₁]
      have hnode : heap₁ b = some ⟨v, none⟩ := by rw [← hb]; exact Function.update_of_ne hba _ _
      have hfreed : next malloc mem₁ (.victimFree .write (pgn.signExtend 64) b) =
          some (.keep, .frameHead .write (pgn.signExtend 64), mem₂) := by
        simp only [next, mem₁, hnode, mem₂]
      have hrep₂ : Represents mem₂ { w with krnl := { w.krnl with mm := { w.krnl.mm with
          fifoPgn := cells.map Prod.snd ++ [p] } } } :=
        { hrep with
          pgnHeap := (hrep.pgnHeap.update a _).update b _
          fifoPgn := ⟨_, hrest, by simp⟩ }
      have hprev : ((cells ++ [(a, p)]).getLast?.map Prod.fst).or none = some a := by simp
      rw [hprev] at hunlink
      have hframe := frame_inside hrep₂ ((hunlink.keep hunlinked).keep hfreed)
      rw [Fifo.findVictim_snoc_snoc]
      dsimp only at hframe ⊢
      cases hswap : w.krnl.activeMswp.getFreefp with
      | none =>
        rw [hswap] at hframe
        exact simulates_unlock hframe hrep₂
      | some res =>
        rw [hswap] at hframe
        obtain ⟨mem', hin', hrep'⟩ := hframe
        exact simulates_unlock hin' hrep'

/-- `libwrite` gets the page, and says 0 whatever comes of it. -/
theorem call_libwrite {cur : VmaCursor} (hcur : getVmaByNum w.krnl.mm 0 = .ok (some cur))
    {reg : BitVec 32} {r : Fin pagingMaxSymtblSz} (hreg : reg.toNat = r) (offset : Addr) :
    w.call (.libwrite reg offset) =
      (pgGetpage w.krnl (Translation.pagingPgn (accessAddr w.krnl.mm r offset))).map fun res =>
        { w with krnl := res.2 } := by
  rw [World.call, libwrite_inTable hcur hreg, pgAccess]
  cases pgGetpage w.krnl (Translation.pagingPgn (accessAddr w.krnl.mm r offset)) with
  | error e => rfl
  | ok res =>
    obtain ⟨fpn, krnl'⟩ := res
    cases fpn <;> rfl

theorem simulates_libwrite (malloc : Malloc Addr) (hrep : Represents mem w) (reg : BitVec 32)
    (offset : Addr) :
    Simulates malloc (.libwrite reg offset) mem (w.call (.libwrite reg offset)) := by
  have hin : (program malloc).Inside (.libwrite reg offset) mem
      (.writeSymrg reg.toInt offset, mem) := ⟨_, rfl, .refl⟩
  have hvma : getVmaByNum mem.mm 0 = getVmaByNum w.krnl.mm 0 := by
    unfold getVmaByNum Shared.mm
    rw [hrep.mmap]
  cases hcur : getVmaByNum w.krnl.mm 0 with
  | error e =>
    have hnext : next malloc mem (.writeSymrg reg.toInt offset) =
        some (.keep, .faulted true, mem) := by
      simp only [next, hvma, hcur]
    rw [World.call, libwrite_error hcur]
    exact ⟨mem, hin.keep hnext⟩
  | ok curVma =>
    cases curVma with
    | none =>
      have hnext : next malloc mem (.writeSymrg reg.toInt offset) = some (.keep, .unlock, mem) := by
        simp [next, hvma, hcur]
      rw [World.call, libwrite_null hcur]
      exact simulates_unlock (hin.keep hnext) hrep
    | some cur =>
      rcases Nat.lt_trichotomy reg.toNat pagingMaxSymtblSz with hlt | heq | hgt
      · obtain ⟨r, hreg⟩ : ∃ r : Fin pagingMaxSymtblSz, reg.toNat = r := ⟨⟨_, hlt⟩, rfl⟩
        let pgn := Translation.pagingPgn (accessAddr w.krnl.mm r offset)
        have hnext : next malloc mem (.writeSymrg reg.toInt offset) =
            some (.keep, .victimHead .write (pgn.signExtend 64), mem) := by
          simp [next, hvma, hcur, toInt_of_toNat hreg, getSymrgById_of_fin, symIndex_ok,
            hrep.symrgtbl, accessPgn, accessAddr, pgn]
        rw [call_libwrite hcur hreg]
        exact simulates_getpage hrep pgn (hin.keep hnext)
      · have hnext : next malloc mem (.writeSymrg reg.toInt offset) =
            some (.keep, .faulted true, mem) := by
          simp [next, hvma, hcur, getSymrgById_eq_some (not_refused_behind heq),
            symIndex_outside heq.ge]
        rw [World.call, libwrite_behind hcur heq]
        exact ⟨mem, hin.keep hnext⟩
      · have hnext : next malloc mem (.writeSymrg reg.toInt offset) =
            some (.keep, .unlock, mem) := by
          simp [next, hvma, hcur, getSymrgById_eq_none ((toInt_outside_iff reg).mpr hgt)]
        rw [World.call, libwrite_outside hcur hgt]
        exact simulates_unlock (hin.keep hnext) hrep

/-! ### Tearing down -/

/-- One round puts one node in front of one of the two lists. -/
theorem freePage_inside {pagenum : ℕ} (hrep : Represents mem w) (hlt : pagenum < Pte.pagingMaxPgn)
    (hin : (program malloc).Inside c m (.teardownNode pagenum, mem)) :
    ∃ mem', (program malloc).Inside c m (.teardownNode (pagenum + 1), mem') ∧
      Represents mem' (w.freePage pagenum) := by
  obtain ⟨ram, swap, hram, hswap, hramVals, hswapVals, hdisj⟩ := hrep.frames
  let newnode := malloc.addr mem.fpHeap
  have hfree : mem.fpHeap newnode = none := malloc.free mem.fpHeap hrep.fpHeap
  have hnotRam : newnode ∉ ram.map Prod.fst := fun hmem => hram.chain.mem hmem hfree
  have hnotSwap : newnode ∉ swap.map Prod.fst := fun hmem => hswap.chain.mem hmem hfree
  have hpgd : (mem.pgd pagenum).setWidth 32 = (w.krnl.mm.pgd pagenum).setWidth 32 := by
    rw [hrep.pgd]
  by_cases hpresent : Pte.pagingPagePresent ((w.krnl.mm.pgd pagenum).setWidth 32) = true
  · let fpn : Addr := (Pte.pagingFpn ((w.krnl.mm.pgd pagenum).setWidth 32)).signExtend 64
    let mem₁ : Shared := { mem with
      fpHeap := Function.update mem.fpHeap newnode (some ⟨fpn, mem.mram⟩) }
    have hnode : (program malloc).next mem (.teardownNode pagenum) =
        some (.keep, .teardownLink pagenum true newnode, mem₁) := by
      simp only [program, next, hlt, hpgd, hpresent, if_true, mem₁, fpn, newnode]
    have hlink : next malloc mem₁ (.teardownLink pagenum true newnode) =
        some (.keep, .teardownNode (pagenum + 1), { mem₁ with mram := some newnode }) := rfl
    refine ⟨_, (hin.keep hnode).keep hlink, ?_⟩
    rw [World.freePage, if_pos hpresent]
    exact {
      hrep with
      fpHeap := hrep.fpHeap.update _ _
      frames := ⟨(newnode, fpn) :: ram, swap, hram.push hfree fpn,
        ⟨hswap.chain.update_of_not_mem hnotSwap _, hswap.nodup⟩,
        congrArg (List.cons fpn) hramVals, hswapVals,
        List.disjoint_cons_left.mpr ⟨hnotSwap, hdisj⟩⟩ }
  · let fpn : Addr := (Pte.pagingSwp ((w.krnl.mm.pgd pagenum).setWidth 32)).signExtend 64
    let mem₁ : Shared := { mem with
      fpHeap := Function.update mem.fpHeap newnode (some ⟨fpn, mem.activeMswp⟩) }
    rw [Bool.not_eq_true] at hpresent
    have hnode : (program malloc).next mem (.teardownNode pagenum) =
        some (.keep, .teardownLink pagenum false newnode, mem₁) := by
      simp only [program, next, hlt, hpgd, hpresent, if_true, Bool.false_eq_true, if_false, mem₁,
        fpn, newnode]
    have hlink : next malloc mem₁ (.teardownLink pagenum false newnode) =
        some (.keep, .teardownNode (pagenum + 1), { mem₁ with activeMswp := some newnode }) := rfl
    refine ⟨_, (hin.keep hnode).keep hlink, ?_⟩
    rw [World.freePage, if_neg (by simp [hpresent])]
    exact {
      hrep with
      fpHeap := hrep.fpHeap.update _ _
      frames := ⟨ram, (newnode, fpn) :: swap,
        ⟨hram.chain.update_of_not_mem hnotRam _, hram.nodup⟩, hswap.push hfree fpn,
        hramVals, congrArg (List.cons fpn) hswapVals,
        List.disjoint_cons_right.mpr ⟨hnotRam, hdisj⟩⟩ }

theorem teardown_inside {n pagenum : ℕ} (hrep : Represents mem w)
    (hn : pagenum + n = Pte.pagingMaxPgn)
    (hin : (program malloc).Inside c m (.teardownNode pagenum, mem)) :
    Simulates malloc c m (.ok ((List.range' pagenum n).foldl World.freePage w)) := by
  induction n generalizing pagenum mem w with
  | zero =>
    have hnext : (program malloc).next mem (.teardownNode pagenum) =
        some (.keep, .unlock, mem) := by
      have hge : ¬ pagenum < Pte.pagingMaxPgn := by
        rw [← hn]
        exact lt_irrefl pagenum
      simp only [program, next, hge, if_false]
    exact simulates_unlock (hin.keep hnext) hrep
  | succ n ih =>
    have hlt : pagenum < Pte.pagingMaxPgn := hn ▸ Nat.lt_add_of_pos_right n.succ_pos
    obtain ⟨mem', hin', hrep'⟩ := freePage_inside hrep hlt hin
    exact ih hrep' ((Nat.add_right_comm pagenum 1 n).trans hn) hin'

/-- Every call that locks does alone what it does to the values. -/
theorem simulates (malloc : Malloc Addr) (hrep : Represents mem w) (hc : c.locks = true) :
    Simulates malloc c mem (w.call c) := by
  cases c with
  | liballoc size reg => exact simulates_liballoc malloc hrep size reg
  | libfree reg => exact simulates_libfree malloc hrep reg
  | libread => cases hc
  | libwrite reg offset => exact simulates_libwrite malloc hrep reg offset
  | freePcbMemph =>
    rw [World.call, List.range_eq_range']
    exact teardown_inside hrep (Nat.zero_add _) ⟨_, rfl, .refl⟩

/-! ## Runs -/

theorem World.call_of_serial (hrep : Represents mem w) (hc : c.locks = true)
    (hstep : (program malloc).serial.step mem c mem') :
    ∃ w', w.call c = .ok w' ∧ Represents mem' w' := by
  have hsim := simulates malloc hrep hc
  cases hcall : w.call c with
  | error e =>
    rw [hcall] at hsim
    obtain ⟨mem'', hin⟩ := hsim
    exact absurd hstep (hin.not_over rfl)
  | ok w' =>
    rw [hcall] at hsim
    obtain ⟨mem'', hstep', hrep'⟩ := hsim
    obtain rfl := serial_unique hstep hstep'
    exact ⟨w', rfl, hrep'⟩

theorem foldlM_call_of_serial {calls : List Call} (hrep : Represents mem w)
    (hc : ∀ c ∈ calls, c.locks = true) (hrun : (program malloc).serial.Run mem calls mem') :
    ∃ w', calls.foldlM World.call w = .ok w' ∧ Represents mem' w' := by
  induction hrun with
  | nil => exact ⟨w, rfl, hrep⟩
  | snoc _ hstep ih =>
    obtain ⟨w₁, hfold, hrep₁⟩ := ih fun c hmem => hc c (List.mem_append_left _ hmem)
    obtain ⟨w', hcall, hrep'⟩ := World.call_of_serial hrep₁
      (hc _ (List.mem_append_right _ List.mem_cons_self)) hstep
    refine ⟨w', ?_, hrep'⟩
    rw [List.foldlM_append, hfold]
    show List.foldlM World.call w₁ [_] = _
    rw [List.foldlM_cons, hcall]
    rfl

variable {τ : Type*} [DecidableEq τ] {s₀ s : State τ Pos Shared} {tr : List (τ × Act Call)}

/-- The thread `t` gets alone to the end of its call, or to the fault that the call has
on values. -/
def Ends (malloc : Malloc Addr) (s : State τ Pos Shared) (t : τ) : Except Fault World → Prop
  | .ok w' => ∃ tr s', ((program malloc).threads τ).Run s tr s' ∧ (∀ l ∈ tr, l.1 = t) ∧
      s'.lock = none ∧ s'.pos t = .idle ∧ Represents s'.mem w'
  | .error _ => ∃ tr s', ((program malloc).threads τ).Run s tr s' ∧ (∀ l ∈ tr, l.1 = t) ∧
      s'.pos t = .faulted true

/-- The run has the effect of its calls one after the other: those in `done` are over,
and `w` is the kernel behind them; each thread is in the call `cur`. -/
def ActsSerially (malloc : Malloc Addr) (w₀ : World) (tr : List (τ × Act Call))
    (s : State τ Pos Shared) : Prop :=
  ∃ (done : List (τ × Call)) (cur : τ → Option Call) (w : World),
    (∀ t, callsOf Call.locks t tr = doneBy t done ++ ((cur t).filter Call.locks).toList) ∧
    (done.map Prod.snd).foldlM World.call w₀ = .ok w ∧
    (s.lock = none → Represents s.mem w) ∧
    ∀ t, s.lock = some t → ∃ c, cur t = some c ∧ Ends malloc s t (w.call c)

/-- For any number of threads and any interleaving, as long as no thread in `libread`
finds a page in the FIFO. -/
theorem acts_serially {w₀ : World} (h₀ : ((program malloc).threads τ).init s₀)
    (hrep : Represents s₀.mem w₀)
    (hrun : (((program malloc).threads τ).restrict (Admits NoVictim)).Run s₀ tr s) :
    ActsSerially malloc w₀ tr s := by
  obtain ⟨done, cur, m, h⟩ := serialized_of_run (sections malloc) h₀ hrun
  have hlocks : ∀ c ∈ done.map Prod.snd, c.locks = true := by
    intro c hmem
    obtain ⟨⟨t, c⟩, hdone, rfl⟩ := List.mem_map.mp hmem
    exact h.locks_of_mem hdone
  obtain ⟨w, hfold, hrep⟩ := foldlM_call_of_serial hrep hlocks h.serial
  refine ⟨done, cur, w, h.calls, hfold, fun hfree => (h.free hfree).symm ▸ hrep, fun t hheld => ?_⟩
  obtain ⟨c, hcur, hc, hin⟩ := (h.phase t).of_lock hheld
  refine ⟨c, hcur, ?_⟩
  have hsim := simulates malloc hrep hc
  cases hcall : w.call c with
  | ok w' =>
    rw [hcall] at hsim
    obtain ⟨mem', hstep, hrep'⟩ := hsim
    obtain ⟨tr', s', hrun', hmine, hlock, hidle, rfl⟩ := hin.finishes hstep
    exact ⟨tr', s', hrun', hmine, hlock, hidle, hrep'⟩
  | error e =>
    rw [hcall] at hsim
    obtain ⟨mem', hstuck⟩ := hsim
    obtain ⟨tr', hrun', hmine⟩ := hin.run_to_end hstuck nofun
    exact ⟨tr', _, hrun', hmine, Function.update_self ..⟩

/-- Two pages in the FIFO, as a value. -/
def twoPagesWorld : World where
  krnl :=
    { mm := { pgd := fun _ => 0, mmap := [], symrgtbl := fun _ => ⟨0, 0⟩, fifoPgn := [7, 5] }
      activeMswp := ⟨[]⟩ }
  mram := ⟨[]⟩

theorem represents_twoPages : Represents twoPages twoPagesWorld where
  pgd := rfl
  mmap := rfl
  symrgtbl := rfl
  pgnHeap := ⟨3, fun a ha => by simp [twoPages, show a ≠ 1 by omega, show a ≠ 2 by omega]⟩
  fifoPgn := ⟨[(1, 7), (2, 5)], ⟨⟨rfl, _, rfl, rfl, _, rfl, rfl⟩, by simp⟩, rfl⟩
  fpHeap := ⟨0, fun _ _ => rfl⟩
  frames := ⟨[], [], linked_nil_iff.mpr rfl, linked_nil_iff.mpr rfl, rfl, rfl, by simp⟩

/-- One thread enters `free_pcb_memph`, another is over with its call in between, and
then the first takes the lock. -/
theorem acts_serially_freePcbMemph : ∃ s : State Bool Pos Shared,
    s.lock = some false ∧ s.pos true = .idle ∧ ActsSerially .least twoPagesWorld
      [(false, .call .freePcbMemph), (true, .call (.libwrite 0 0)), (true, .stmt), (true, .stmt),
        (true, .stmt), (false, .stmt)] s := by
  obtain ⟨s, hrun, hlock, hidle⟩ : ∃ s : State Bool Pos Shared,
      (((program .least).threads Bool).restrict (Admits NoVictim)).Run start
        [(false, .call .freePcbMemph), (true, .call (.libwrite 0 0)), (true, .stmt), (true, .stmt),
          (true, .stmt), (false, .stmt)] s ∧
      s.lock = some false ∧ s.pos true = .idle :=
    ⟨_, .cons ⟨⟨rfl, rfl⟩, fun h => by cases h⟩
      (.cons ⟨⟨rfl, rfl⟩, fun h => by cases h⟩
      (.cons ⟨⟨_, _, _, _, rfl, rfl, rfl⟩, fun _ _ h => by cases h⟩
      (.cons ⟨⟨_, _, _, _, rfl, rfl, rfl⟩, fun _ _ h => by cases h⟩
      (.cons ⟨⟨_, _, _, _, rfl, rfl, rfl⟩, fun _ _ h => by cases h⟩
      (.cons ⟨⟨_, _, _, _, rfl, rfl, rfl⟩, fun _ _ h => by cases h⟩ .nil))))), rfl, rfl⟩
  exact ⟨s, hlock, hidle, acts_serially (start_init .least) represents_twoPages hrun⟩

end MmLock

end SimpleOs
