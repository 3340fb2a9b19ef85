import SimpleOs.Conservation
import SimpleOs.Cpu
import SimpleOs.Pager

/-!
# How many accesses a program may make

`READ` and `WRITE` call `pg_getpage`, whatever their register holds; no other
instruction touches the page FIFO or the swap device. So the pages and frames that a
process starts with say how many of its accesses return, and the next one is undefined.

The pages and frames are counted by a system of their own, which the processor refines.

Results:
1. `budget_eq`: what is left after some accesses.
2. `switch_budget`: an instruction does to the pages and frames what this system says.
3. `program_runs_iff`: a program runs to any point exactly if its accesses up to there
   are within the budget.
-/

namespace SimpleOs

namespace Cpu

open Libmem Loader MmStruct

/-! ## The budget -/

/-- An access: the pages and frames behind it, or `none` where it is undefined. -/
def access : ℕ × ℕ → Option (ℕ × ℕ)
  | (0, m) => some (0, m)
  | (1, _) => none
  | (n + 2, 0) => some (n + 1, 0)
  | (n + 2, m + 1) => some (n + 2, m)

/-- The pages and frames behind `k` accesses. -/
def budget (start : ℕ × ℕ) : ℕ → Option (ℕ × ℕ)
  | 0 => some start
  | k + 1 => (budget start k).bind access

/-- From `n` pages and `m` frames, `k` accesses are defined. -/
def Survives (n m k : ℕ) : Prop :=
  n = 0 ∨ k = 0 ∨ 2 ≤ n ∧ k < m + n

theorem budget_eq_of_survives {n m k : ℕ} (h : Survives n m k) :
    budget (n, m) k = some (n - (k - m), if n = 0 then m else m - k) := by
  induction k with
  | zero => simp [budget]
  | succ k ih =>
    have hk : Survives n m k := by
      unfold Survives at h ⊢
      omega
    rw [budget, ih hk, Option.bind_some]
    rcases h with rfl | h | ⟨hn, hlt⟩
    · simp [access]
    · cases h
    · have hpos : n ≠ 0 := by omega
      rw [if_neg hpos, if_neg hpos]
      rcases Nat.lt_or_ge k m with hkm | hkm
      · obtain ⟨n', rfl⟩ := Nat.exists_eq_add_of_le' hn
        obtain ⟨m', hm'⟩ := Nat.exists_eq_succ_of_ne_zero (Nat.sub_ne_zero_of_lt hkm)
        rw [Nat.sub_eq_zero_of_le hkm.le, Nat.sub_eq_zero_of_le hkm, hm', Nat.sub_zero, access]
        congr 2
        omega
      · obtain ⟨n', hn'⟩ : ∃ n', n - (k - m) = n' + 2 := ⟨n - (k - m) - 2, by omega⟩
        rw [hn', Nat.sub_eq_zero_of_le hkm, access]
        congr 2 <;> omega

instance (n m k : ℕ) : Decidable (Survives n m k) :=
  inferInstanceAs (Decidable (n = 0 ∨ k = 0 ∨ 2 ≤ n ∧ k < m + n))

/-- The budget in closed form. -/
theorem budget_eq (n m k : ℕ) :
    budget (n, m) k =
      if Survives n m k then some (n - (k - m), if n = 0 then m else m - k) else none := by
  split
  · next h => exact budget_eq_of_survives h
  · next h =>
    induction k with
    | zero => exact absurd (.inr (.inl rfl)) h
    | succ k ih =>
      by_cases hk : Survives n m k
      · rw [budget, budget_eq_of_survives hk]
        have hone : n - (k - m) = 1 := by
          unfold Survives at h hk
          omega
        rw [hone]
        rfl
      · rw [budget, ih hk]
        rfl

/-! ## One instruction -/

/-- The instruction gets a page. -/
def accesses (ins : Inst) : Bool :=
  ins.opcode = .read || ins.opcode = .write

/-- The register that the instruction names is in the table, and a memmap call asks for
none of the operations on memory. -/
def memSafe (ins : Inst) : Bool :=
  match ins.opcode with
  | .alloc | .write => (ins.arg1.setWidth 32).toNat < pagingMaxSymtblSz
  | .free | .read => (ins.arg0.setWidth 32).toNat < pagingMaxSymtblSz
  | .syscall => ins.arg0.setWidth 32 ≠ (17 : BitVec 32) ||
      (ins.arg1.setWidth 32).toInt ∉
        [SysMemmap.sysmemSwpOp, SysMemmap.sysmemIoRead, SysMemmap.sysmemIoWrite]
  | _ => true

/-- There is an area that `get_vma_by_num` finds for the id 0. -/
def HasArea (krnl : Krnl) : Prop :=
  ∃ vmait ∈ krnl.mm.mmap.map VmArea.vmait, 0 ≤ vmait

/-- The pages and the frames of the kernel. -/
def counts (krnl : Krnl) : ℕ × ℕ :=
  (krnl.pages, krnl.frames)

variable {krnl krnl' : Krnl} {reg : BitVec 32} {r : Fin pagingMaxSymtblSz}

theorem HasArea.cursor (h : HasArea krnl) :
    ∃ cur, getVmaByNum krnl.mm 0 = .ok (some cur) := by
  obtain ⟨_, hmem, hid⟩ := h
  obtain ⟨vma, hvma, rfl⟩ := List.mem_map.mp hmem
  exact getVmaByNum_ok ⟨vma, hvma, hid⟩

/-- What an operation of the library leaves of the pages and frames: `out` where it
returns, and then the areas have the ids they had. -/
structure Spends {α : Type} (krnl : Krnl) (result : Except Fault α) (after : α → Krnl)
    (out : Option (ℕ × ℕ)) : Prop where
  counts : (result.map fun a => counts (after a)).toOption = out
  areas : ∀ a, result = .ok a →
    (after a).mm.mmap.map VmArea.vmait = krnl.mm.mmap.map VmArea.vmait

/-- The result is passed on in another form. -/
theorem Spends.map {α β : Type} {result : Except Fault α} {after : α → Krnl}
    {out : Option (ℕ × ℕ)} (h : Spends krnl result after out) {f : α → β} {after' : β → Krnl}
    (hf : ∀ a, after' (f a) = after a) : Spends krnl (result.map f) after' out := by
  constructor
  · rw [← h.counts]
    cases result with
    | error e => rfl
    | ok a =>
      exact congrArg (fun krnl => some (Cpu.counts krnl)) (hf a)
  · rintro b hb
    obtain ⟨a, ha, rfl⟩ := map_eq_ok.mp hb
    rw [hf]
    exact h.areas a ha

/-- It returns, and leaves the pages and frames alone. -/
theorem Spends.of_ok {α : Type} {a : α} {after : α → Krnl}
    (hcounts : Cpu.counts (after a) = Cpu.counts krnl)
    (hareas : (after a).mm.mmap.map VmArea.vmait = krnl.mm.mmap.map VmArea.vmait) :
    Spends krnl (.ok a) after (some (Cpu.counts krnl)) := by
  refine ⟨congrArg some hcounts, ?_⟩
  rintro _ ⟨⟩
  exact hareas

/-- An access is an access. -/
theorem pgAccess_spends (krnl : Krnl) (addr : BitVec 32) :
    Spends krnl (pgAccess krnl addr) Prod.snd (access (counts krnl)) := by
  generalize hpgn : Translation.pagingPgn addr = pgn
  have hval : ∀ fpn krnl', pgGetpage krnl pgn = .ok (fpn, krnl') →
      krnl'.mm.mmap = krnl.mm.mmap → access (counts krnl) = some (counts krnl') →
      Spends krnl (pgAccess krnl addr) Prod.snd (access (counts krnl)) := by
    intro fpn krnl' hpage hmmap hout
    unfold pgAccess
    rw [hpgn, hpage, hout]
    cases fpn <;> exact ⟨rfl, by rintro _ ⟨⟩; rw [hmmap]⟩
  match hpages : krnl.pages with
  | 0 =>
    refine hval _ _ (pgGetpage_nil hpages pgn) rfl ?_
    rw [counts, hpages]
    rfl
  | 1 =>
    unfold pgAccess
    rw [hpgn, pgGetpage_single hpages, counts, hpages]
    exact ⟨rfl, fun a h => by cases h⟩
  | n + 2 =>
    have htwo : 2 ≤ krnl.pages := by omega
    match hframes : krnl.frames with
    | 0 =>
      have hexhausted : SwapExhausted krnl := ⟨htwo, List.length_eq_zero_iff.mp hframes⟩
      refine hval _ _ (pgGetpage_dropsVictim hexhausted pgn) rfl ?_
      have hframes' : krnl.dropVictim.frames = 0 := hframes
      rw [counts, counts, pages_dropVictim, hpages, hframes, hframes']
      rfl
    | m + 1 =>
      have hpos : 0 < krnl.frames := by omega
      refine hval _ _ (pgGetpage_replaces htwo hpos pgn) rfl ?_
      rw [counts, counts, pages_replaceVictim (by omega), frames_replaceVictim, hpages, hframes]
      rfl

/-- The areas keep their ids when a region is cut from one of them. -/
theorem getFreeVmrgArea_frame {mm mm' : MmStruct} {vmaid : ℤ} {size : BitVec 32}
    {rgnode : Option VmRg} (h : getFreeVmrgArea mm vmaid size = .ok (rgnode, mm')) :
    mm'.fifoPgn = mm.fifoPgn ∧ mm'.mmap.map VmArea.vmait = mm.mmap.map VmArea.vmait := by
  unfold getFreeVmrgArea at h
  obtain ⟨result, hcur, h⟩ := bind_eq_ok.mp h
  cases result with
  | none => cases h
  | some cur =>
    dsimp only at h
    cases htake : takeFreerg (size.signExtend 64) cur.vma.vmFreergList with
    | none =>
      rw [htake] at h
      cases h
      exact ⟨rfl, rfl⟩
    | some taken =>
      have hput : ∀ freergs, (cur.put { cur.vma with vmFreergList := freergs }).map
          VmArea.vmait = mm.mmap.map VmArea.vmait := by
        intro freergs
        rw [← put_vma hcur, VmaCursor.put, VmaCursor.put, List.map_append, List.map_append]
        rfl
      rw [htake] at h
      dsimp only at h
      split at h <;> cases h <;> exact ⟨rfl, hput _⟩

theorem liballoc_spends (harea : HasArea krnl) (hreg : reg.toNat = r) (size : Addr) :
    Spends krnl (liballoc krnl size reg) Prod.snd (some (counts krnl)) := by
  obtain ⟨cur, hcur⟩ := harea.cursor
  obtain ⟨rgnode, mm', hfree⟩ := getFreeVmrgArea_ok hcur (size.setWidth 32)
  obtain ⟨hfifo, hareas⟩ := getFreeVmrgArea_frame hfree
  have hpages : mm'.fifoPgn.length = krnl.mm.fifoPgn.length := congrArg _ hfifo
  cases rgnode with
  | none =>
    rw [liballoc_notFound hcur hreg hfree]
    exact .of_ok (congrArg (·, krnl.frames) hpages) hareas
  | some newrg =>
    rw [liballoc_served hreg hfree]
    exact .of_ok (congrArg (·, krnl.frames) hpages) hareas

theorem libfree_spends (harea : HasArea krnl) (hreg : reg.toNat = r) :
    Spends krnl (libfree krnl reg) Prod.snd (some (counts krnl)) := by
  rcases eq_or_ne (krnl.mm.symrgtbl r) ⟨0, 0⟩ with hempty | hrg
  · rw [libfree_empty hreg hempty]
    exact .of_ok rfl rfl
  · rw [libfree_region hreg hrg]
    unfold enlistVmFreergList
    cases hmmap : krnl.mm.mmap with
    | nil =>
      obtain ⟨_, hmem, -⟩ := harea
      rw [hmmap] at hmem
      cases hmem
    | cons vma after =>
      simp only [hmmap]
      split
      · exact .of_ok rfl (congrArg _ hmmap.symm)
      · exact .of_ok rfl (congrArg (List.map VmArea.vmait) hmmap).symm

/-- A system call that asks for no operation on memory returns. -/
theorem syscall_safe {raw : SysMemmap.Raw} {devs : SysMemmap.Devs} {nr : BitVec 32}
    {regs : SysMemmap.ScRegs} (hsafe : (nr ≠ 17 || (regs.a1.setWidth 32).toInt ∉
      [SysMemmap.sysmemSwpOp, SysMemmap.sysmemIoRead, SysMemmap.sysmemIoWrite]) = true) :
    ∃ result, SysMemmap.syscall raw devs nr regs = .ok result := by
  unfold SysMemmap.syscall
  split
  · next hnr =>
    simp only [hnr, ne_eq, not_true_eq_false, decide_false, Bool.false_or, decide_eq_true_eq,
      List.mem_cons, List.not_mem_nil, or_false, not_or] at hsafe
    unfold SysMemmap.sysMemmap
    dsimp only
    rw [if_neg hsafe.1, if_neg hsafe.2.1, if_neg hsafe.2.2]
    split <;> exact ⟨_, rfl⟩
  · exact ⟨_, rfl⟩

/-- An instruction spends what an access spends, or nothing. -/
theorem switch_spends {raw : Raw} {ins : Inst} {proc : Pcb} (hsafe : memSafe ins = true)
    (harea : HasArea proc.krnl) :
    Spends proc.krnl (switch raw ins proc) (fun result => result.2.2.krnl)
      (if accesses ins then access (counts proc.krnl) else some (counts proc.krnl)) := by
  have hreg : ∀ arg : BitVec 64, (arg.setWidth 32).toNat < pagingMaxSymtblSz →
      ∃ r : Fin pagingMaxSymtblSz, (arg.setWidth 32).toNat = r := fun arg h => ⟨⟨_, h⟩, rfl⟩
  unfold switch accesses
  unfold memSafe at hsafe
  cases hop : ins.opcode with
  | alloc =>
    rw [hop] at hsafe
    obtain ⟨r, hr⟩ := hreg _ (of_decide_eq_true hsafe)
    exact (liballoc_spends harea hr ins.arg0).map fun _ => rfl
  | free =>
    rw [hop] at hsafe
    obtain ⟨r, hr⟩ := hreg _ (of_decide_eq_true hsafe)
    exact (libfree_spends harea hr).map fun _ => rfl
  | read =>
    rw [hop] at hsafe
    obtain ⟨r, hr⟩ := hreg _ (of_decide_eq_true hsafe)
    have hread : Spends proc.krnl (libread proc.krnl (ins.arg0.setWidth 32) ins.arg1 raw.data)
        (fun result => result.2.2) (access (counts proc.krnl)) := by
      rw [libread_inTable hr]
      exact (pgAccess_spends _ _).map fun _ => rfl
    exact hread.map fun _ => rfl
  | write =>
    rw [hop] at hsafe
    obtain ⟨r, hr⟩ := hreg _ (of_decide_eq_true hsafe)
    obtain ⟨cur, hcur⟩ := harea.cursor
    have hwrite : Spends proc.krnl (libwrite proc.krnl (ins.arg0.setWidth 8)
        (ins.arg1.setWidth 32) ins.arg2) Prod.snd (access (counts proc.krnl)) := by
      rw [libwrite_inTable hcur hr]
      exact (pgAccess_spends _ _).map fun _ => rfl
    exact hwrite.map fun _ => rfl
  | syscall =>
    obtain ⟨result, hcall⟩ : ∃ result, libsyscall raw.memmap proc.devs (ins.arg0.setWidth 32)
        ins.arg1 ins.arg2 ins.arg3 = .ok result := by
      rw [hop] at hsafe
      exact syscall_safe hsafe
    dsimp only
    rw [hcall]
    exact .of_ok rfl rfl
  | _ => exact .of_ok rfl rfl

/-- An operation that spends something defined returns. -/
theorem Spends.exists_ok {α : Type} {result : Except Fault α} {after : α → Krnl}
    {out : Option (ℕ × ℕ)} (h : Spends krnl result after out) (hout : out.isSome = true) :
    ∃ a, result = .ok a := by
  cases result with
  | error e =>
    rw [← h.counts] at hout
    cases hout
  | ok a => exact ⟨a, rfl⟩

theorem Spends.eq_some {α : Type} {result : Except Fault α} {after : α → Krnl}
    {out : Option (ℕ × ℕ)} (h : Spends krnl result after out) {a : α} (ha : result = .ok a) :
    out = some (Cpu.counts (after a)) ∧ (HasArea krnl → HasArea (after a)) := by
  refine ⟨?_, fun harea => ?_⟩
  · rw [← h.counts, ha]
    rfl
  · unfold HasArea
    rwa [h.areas a ha]

/-! ## A whole program -/

/-- A program as the loader builds it: `text` has `size` entries, each of them safe, and
`pc` is not behind the end. -/
structure SafeProgram (proc : Pcb) : Prop where
  length : proc.code.text.length = proc.code.size.toNat
  pc : proc.pc ≤ proc.code.size
  safe : ∀ ins ∈ proc.code.text, memSafe ins = true

/-- The instructions in the next `k` calls of `run`. -/
def executed (proc : Pcb) (k : ℕ) : List Inst :=
  (proc.code.text.drop proc.pc.toNat).take k

/-- How many of them get a page. -/
def accessCount (proc : Pcb) (k : ℕ) : ℕ :=
  (executed proc k).countP accesses

variable {proc proc' : Pcb} {raw : Raw} {raws : List Raw}

theorem accessCount_succ (proc : Pcb) (k : ℕ) :
    accessCount proc (k + 1) = accessCount proc k +
      if (proc.code.text[proc.pc.toNat + k]?).any accesses then 1 else 0 := by
  unfold accessCount executed
  rw [List.take_add_one, List.countP_append, List.getElem?_drop]
  cases proc.code.text[proc.pc.toNat + k]? with
  | none => rfl
  | some ins =>
    rw [Option.toList_some, List.countP_singleton]
    rfl

theorem budget_accessCount_succ (start : ℕ × ℕ) (proc : Pcb) (k : ℕ) :
    budget start (accessCount proc (k + 1)) =
      if (proc.code.text[proc.pc.toNat + k]?).any accesses then
        (budget start (accessCount proc k)).bind access
      else budget start (accessCount proc k) := by
  rw [accessCount_succ]
  split
  · rfl
  · rw [Nat.add_zero]

theorem run_eq {ins : Inst} (hpc : ¬ proc.pc ≥ proc.code.size)
    (hins : proc.code.text[proc.pc.toNat]? = some ins) :
    run raw proc = (switch raw ins { proc with pc := proc.pc + 1 }).map fun result =>
      (result.1, result.2.2) := by
  unfold run
  rw [if_neg hpc, hins]
  dsimp only
  cases switch raw ins { proc with pc := proc.pc + 1 } <;> rfl

/-- The call of `run` behind `raws.length` others spends what its instruction spends. -/
theorem run_spends (hprog : SafeProgram proc) (hrun : process.Run proc raws proc')
    (harea : HasArea proc'.krnl) (raw : Raw) :
    Spends proc'.krnl (run raw proc') (fun result => result.2.krnl)
      (if (proc.code.text[proc.pc.toNat + raws.length]?).any accesses then
        access (counts proc'.krnl) else some (counts proc'.krnl)) := by
  obtain ⟨-, hcode, hpc⟩ := regs_along hrun hprog.pc
  rcases Nat.lt_or_ge (proc.pc.toNat + raws.length) proc.code.size.toNat with hlt | hge
  · rw [min_eq_left hlt.le] at hpc
    obtain ⟨ins, hins⟩ : ∃ ins, proc.code.text[proc.pc.toNat + raws.length]? = some ins :=
      ⟨_, List.getElem?_eq_getElem (hprog.length ▸ hlt)⟩
    have hpc' : ¬ proc'.pc ≥ proc'.code.size := by
      rw [ge_iff_le, BitVec.le_def, hcode, hpc]
      exact Nat.not_le.mpr hlt
    have hswitch := @switch_spends raw ins { proc' with pc := proc'.pc + 1 }
      (hprog.safe ins (List.mem_of_getElem? hins)) harea
    rw [hins, run_eq hpc' (by rw [hcode, hpc, hins])]
    exact hswitch.map fun _ => rfl
  · rw [min_eq_right hge] at hpc
    have hins : proc.code.text[proc.pc.toNat + raws.length]? = none :=
      List.getElem?_eq_none (hprog.length ▸ hge)
    have hpc' : proc'.pc ≥ proc'.code.size := by
      rw [ge_iff_le, BitVec.le_def, hcode, hpc]
    rw [run_end hpc', hins]
    exact .of_ok rfl rfl

/-- The processor refines the counting: what a run has left is what the budget has. -/
theorem budget_of_run (hprog : SafeProgram proc) (harea : HasArea proc.krnl)
    (hrun : process.Run proc raws proc') :
    budget (counts proc.krnl) (accessCount proc raws.length) = some (counts proc'.krnl) ∧
      HasArea proc'.krnl := by
  refine hrun.trace_invariant (I := fun raws proc' =>
    budget (counts proc.krnl) (accessCount proc raws.length) = some (counts proc'.krnl) ∧
      HasArea proc'.krnl) ?_ ?_
  · exact ⟨rfl, harea⟩
  · rintro raws proc₁ raw proc₂ hrun ⟨hbudget, harea⟩ ⟨stat, hstep⟩
    obtain ⟨hout, hkeeps⟩ := (run_spends hprog hrun harea raw).eq_some hstep
    rw [List.length_append, List.length_singleton, budget_accessCount_succ, hbudget]
    exact ⟨hout, hkeeps harea⟩

/-- The next instruction returns if the budget allows for it. -/
theorem exists_step (hprog : SafeProgram proc) (harea : HasArea proc.krnl)
    (hrun : process.Run proc raws proc') (raw : Raw)
    (hbudget : (budget (counts proc.krnl) (accessCount proc (raws.length + 1))).isSome = true) :
    ∃ proc'', process.step proc' raw proc'' := by
  obtain ⟨hcounts, harea'⟩ := budget_of_run hprog harea hrun
  rw [budget_accessCount_succ, hcounts] at hbudget
  obtain ⟨⟨stat, proc''⟩, hstep⟩ := (run_spends hprog hrun harea' raw).exists_ok hbudget
  exact ⟨proc'', stat, hstep⟩

theorem isSome_budget {start : ℕ × ℕ} {j k : ℕ} (hle : j ≤ k)
    (h : (budget start k).isSome = true) : (budget start j).isSome = true := by
  induction hle with
  | refl => exact h
  | step _ ih =>
    refine ih ?_
    obtain ⟨c, hc⟩ := Option.isSome_iff_exists.mp h
    obtain ⟨c', hc', -⟩ := Option.bind_eq_some_iff.mp hc
    rw [hc']
    rfl

theorem exists_run (hprog : SafeProgram proc) (harea : HasArea proc.krnl)
    (hbudget : (budget (counts proc.krnl) (accessCount proc raws.length)).isSome = true) :
    ∃ proc', process.Run proc raws proc' := by
  induction raws using List.reverseRecOn with
  | nil => exact ⟨proc, .nil⟩
  | append_singleton raws raw ih =>
    rw [List.length_append, List.length_singleton] at hbudget
    have hle : accessCount proc raws.length ≤ accessCount proc (raws.length + 1) := by
      rw [accessCount_succ]
      exact Nat.le_add_right _ _
    obtain ⟨proc', hrun⟩ := ih (isSome_budget hle hbudget)
    obtain ⟨proc'', hstep⟩ := exists_step hprog harea hrun raw hbudget
    exact ⟨proc'', hrun.snoc hstep⟩

/-- How far a program runs. The pages in the FIFO and the frames of the swap device that
it starts with say how many of its accesses return, whatever they access and whatever
the other instructions are; and they say what is left then. -/
theorem program_runs_iff (hprog : SafeProgram proc) (harea : HasArea proc.krnl)
    (raws : List Raw) :
    ((∃ proc', process.Run proc raws proc') ↔
      Survives proc.krnl.pages proc.krnl.frames (accessCount proc raws.length)) ∧
    ∀ proc', process.Run proc raws proc' →
      proc'.krnl.pages =
        proc.krnl.pages - (accessCount proc raws.length - proc.krnl.frames) ∧
      proc'.krnl.frames = if proc.krnl.pages = 0 then proc.krnl.frames else
        proc.krnl.frames - accessCount proc raws.length := by
  have heq := budget_eq proc.krnl.pages proc.krnl.frames (accessCount proc raws.length)
  refine ⟨⟨fun ⟨proc', hrun⟩ => ?_, fun hsurvives => ?_⟩, fun proc' hrun => ?_⟩
  · by_contra hnot
    rw [if_neg hnot] at heq
    cases heq.symm.trans (budget_of_run hprog harea hrun).1
  · rw [if_pos hsurvives] at heq
    exact exists_run hprog harea (Option.isSome_iff_exists.mpr ⟨_, heq⟩)
  · have hcounts := heq.symm.trans (budget_of_run hprog harea hrun).1
    split at hcounts
    · have hpair := Option.some.inj hcounts
      exact ⟨(congrArg Prod.fst hpair).symm, (congrArg Prod.snd hpair).symm⟩
    · cases hcounts

/-- A process with two pages and one frame that reads, calculates, writes and reads. -/
def threeAccesses : Pcb where
  code := ⟨[readIns, { readIns with opcode := .calc }, { readIns with opcode := .write },
    readIns], 4⟩
  regs := fun _ => 0
  pc := 0
  krnl := twoPagesOneFrame
  devs := fun _ => none

/-- The third access is one too many. -/
theorem program_runs_threeAccesses :
    (∃ proc', process.Run threeAccesses [rawByte 0, rawByte 0, rawByte 0] proc') ∧
      ¬ ∃ proc', process.Run threeAccesses [rawByte 0, rawByte 0, rawByte 0, rawByte 0] proc' := by
  have hprog : SafeProgram threeAccesses := ⟨rfl, by decide, by decide⟩
  have harea : HasArea threeAccesses.krnl := ⟨0, by decide, le_rfl⟩
  constructor
  · rw [(program_runs_iff hprog harea _).1]
    decide
  · rw [(program_runs_iff hprog harea _).1]
    decide

end Cpu

end SimpleOs
