import SimpleOs.Access
import SimpleOs.Loader
import SimpleOs.Os
import SimpleOs.SysMemmap

/-!
# Executing an instruction

`run` copies the instruction at `pc` into a local variable, moves `pc` on and calls
the library. `READ source offset destination` is to put the byte that `libread`
reads into the register `destination`; `run` passes `libread` the address of the
third argument in its copy of the instruction, and the byte is lost when `run`
returns. No other instruction changes a register either.

Results:
1. `run_returns_iff`: when an instruction returns.
2. `run_frame`: what every instruction leaves alone. `regs_along`: the registers of
   a process never change.
3. `documented_iff`: when an instruction does what it is documented to do.
-/

namespace SimpleOs

namespace Cpu

open Libmem Loader

/-- `struct pcb_t`, as far as `run` uses it, with the kernel structure that it
points to and the devices in memory. -/
structure Pcb where
  code : CodeSeg
  regs : Fin 10 → Addr
  pc : BitVec 32
  krnl : Krnl
  devs : SysMemmap.Devs

/-- What the memory holds that a call reads before anything writes it: `data` in
`libread`, and what system call 17 finds. -/
structure Raw where
  data : BitVec 8
  memmap : SysMemmap.Raw

/-- `calc`. -/
def execCalc (_proc : Pcb) : ℤ :=
  0

/-- `libsyscall`: the return value, the registers of the call and the devices. -/
def libsyscall (raw : SysMemmap.Raw) (devs : SysMemmap.Devs) (syscallIdx : BitVec 32)
    (a1 a2 a3 : BitVec 64) : Except Fault (ℤ × SysMemmap.ScRegs × SysMemmap.Devs) :=
  SysMemmap.syscall raw devs syscallIdx ⟨a1, a2, a3⟩

/-- An `arg_t` after a `uint32_t` was stored at its address. -/
def putLow (arg : BitVec 64) (low : BitVec 32) : BitVec 64 :=
  arg.extractLsb' 32 32 ++ low

/-- The `switch` of `run`: `stat`, the local variable `ins` and the process after
it. -/
def switch (raw : Raw) (ins : Inst) (proc : Pcb) : Except Fault (ℤ × Inst × Pcb) :=
  let krnl := proc.krnl
  match ins.opcode with
  | .calc => .ok (execCalc proc, ins, proc)
  | .alloc => do
    let (stat, krnl) ← liballoc krnl ins.arg0 (ins.arg1.setWidth 32)
    return (stat, ins, { proc with krnl := krnl })
  | .kmalloc =>
    .ok (libkmemMalloc krnl (ins.arg0.setWidth 32) (ins.arg1.setWidth 32), ins, proc)
  | .kmemCacheCreate =>
    .ok (libkmemCachePoolCreate krnl (ins.arg0.setWidth 32) (ins.arg1.setWidth 32)
      (ins.arg2.setWidth 32), ins, proc)
  | .kmemCacheAlloc =>
    .ok (libkmemCacheAlloc krnl (ins.arg0.setWidth 32) (ins.arg1.setWidth 32), ins, proc)
  | .copyFromUser =>
    .ok (libkmemCopyFromUser krnl (ins.arg0.setWidth 32) (ins.arg1.setWidth 32)
      (ins.arg2.setWidth 32) (ins.arg3.setWidth 32), ins, proc)
  | .copyToUser =>
    .ok (libkmemCopyToUser krnl (ins.arg0.setWidth 32) (ins.arg1.setWidth 32)
      (ins.arg2.setWidth 32) (ins.arg3.setWidth 32), ins, proc)
  | .free => do
    let (stat, krnl) ← libfree krnl (ins.arg0.setWidth 32)
    return (stat, ins, { proc with krnl := krnl })
  | .read => do
    let (stat, destination, krnl) ← libread krnl (ins.arg0.setWidth 32) ins.arg1 raw.data
    -- The pointer that `libread` is given is `(uint32_t*) &ins.arg_2`.
    return (stat, { ins with arg2 := putLow ins.arg2 destination }, { proc with krnl := krnl })
  | .write => do
    let (stat, krnl) ← libwrite krnl (ins.arg0.setWidth 8) (ins.arg1.setWidth 32) ins.arg2
    return (stat, ins, { proc with krnl := krnl })
  | .syscall => do
    let (stat, _, devs) ← libsyscall raw.memmap proc.devs (ins.arg0.setWidth 32) ins.arg1
      ins.arg2 ins.arg3
    return (stat, ins, { proc with devs := devs })

/-- `run`: the return value and the process after the call. -/
def run (raw : Raw) (proc : Pcb) : Except Fault (ℤ × Pcb) :=
  if proc.pc ≥ proc.code.size then .ok (1, proc)
  else
    match proc.code.text[proc.pc.toNat]? with
    | none => .error .outOfBounds
    | some ins => do
      -- `ins` is local to `run`.
      let (stat, _, proc) ← switch raw ins { proc with pc := proc.pc + 1 }
      return (stat, proc)

/-! ## What an instruction is to do -/

/-- The documented effect of the instruction `ins` on the process: the program
counter moves by one, the program stays, `READ` puts the byte that `libread` reads
into its destination if `libread` returns 0, as a number from 0 to 255, and changes
no other register, and neither do `CALC`, `FREE`, `WRITE` and `SYSCALL`. -/
structure Effect (raw : Raw) (ins : Inst) (proc proc' : Pcb) : Prop where
  pc : proc'.pc.toNat = proc.pc.toNat + 1
  code : proc'.code = proc.code
  read : ins.opcode = .read → ∀ d : Fin 10, ins.arg2.toNat = d →
    ∀ val destination krnl',
      libread proc.krnl (ins.arg0.setWidth 32) ins.arg1 raw.data = .ok (val, destination, krnl') →
      proc'.regs d = if val = 0 then (destination.setWidth 8).setWidth 64 else proc.regs d
  others : ins.opcode = .read → ∀ r : Fin 10, ins.arg2.toNat ≠ r → proc'.regs r = proc.regs r
  none : ins.opcode ∈ [.calc, .free, .write, .syscall] → proc'.regs = proc.regs

/-- `run` executes the instruction, returns, and has this effect. -/
def Documented (raw : Raw) (ins : Inst) (proc : Pcb) : Prop :=
  ∃ stat proc', run raw proc = .ok (stat, proc') ∧ Effect raw ins proc proc'

/-- The function of the library that the instruction calls returns: it finds the area,
the register and the pages that it takes for granted, and a call of memmap the byte. -/
def Returns (raw : Raw) (ins : Inst) (proc : Pcb) : Prop :=
  let mm := proc.krnl.mm
  match ins.opcode with
  | .alloc => (∃ vma ∈ mm.mmap, 0 ≤ vma.vmait) ∧ (ins.arg1.setWidth 32).toNat < pagingMaxSymtblSz
  | .free => pagingMaxSymtblSz < (ins.arg0.setWidth 32).toNat ∨
      ∃ r : Fin pagingMaxSymtblSz, (ins.arg0.setWidth 32).toNat = r ∧
        (mm.symrgtbl r = ⟨0, 0⟩ ∨ mm.mmap ≠ [])
  | .read => (ins.arg0.setWidth 32).toNat < pagingMaxSymtblSz ∧ mm.fifoPgn.length ≠ 1
  | .write => mm.mmap = [] ∨ (∃ vma ∈ mm.mmap, 0 ≤ vma.vmait) ∧
      (pagingMaxSymtblSz < (ins.arg1.setWidth 32).toNat ∨
        (ins.arg1.setWidth 32).toNat < pagingMaxSymtblSz ∧ mm.fifoPgn.length ≠ 1)
  | .syscall => ins.arg0.setWidth 32 = (17 : BitVec 32) →
      SysMemmap.Returns raw.memmap proc.devs ⟨ins.arg1, ins.arg2, ins.arg3⟩
  | _ => True

/-! ## What an instruction leaves alone -/

section Step

variable {raw : Raw} {ins ins' : Inst} {proc proc' : Pcb} {stat : ℤ}

/-- The instruction works on the kernel structure and the devices only. -/
theorem switch_frame (h : switch raw ins proc = .ok (stat, ins', proc')) :
    proc' = { proc with krnl := proc'.krnl, devs := proc'.devs } := by
  unfold switch at h
  cases hop : ins.opcode with
  | alloc | free | read | write | syscall =>
    rw [hop] at h
    obtain ⟨result, -, hret⟩ := bind_eq_ok.mp h
    cases hret
    rfl
  -- The others change nothing.
  | _ =>
    rw [hop] at h
    cases h
    rfl

/-- Behind the last instruction `run` does nothing. -/
theorem run_end (hpc : proc.pc ≥ proc.code.size) : run raw proc = .ok (1, proc) :=
  if_pos hpc

theorem run_eq_ok_iff (hpc : proc.pc < proc.code.size)
    (hins : proc.code.text[proc.pc.toNat]? = some ins) :
    run raw proc = .ok (stat, proc') ↔
      ∃ ins', switch raw ins { proc with pc := proc.pc + 1 } = .ok (stat, ins', proc') := by
  unfold run
  rw [if_neg (BitVec.not_le.mpr hpc), hins]
  constructor
  · intro h
    obtain ⟨⟨stat', ins', proc''⟩, hswitch, hret⟩ := bind_eq_ok.mp h
    cases hret
    exact ⟨ins', hswitch⟩
  · rintro ⟨ins', hswitch⟩
    exact bind_eq_ok.mpr ⟨_, hswitch, rfl⟩

/-- The instruction returns exactly if what it calls does. -/
theorem switch_returns_iff (raw : Raw) (ins : Inst) (proc : Pcb) :
    (∃ result, switch raw ins proc = .ok result) ↔ Returns raw ins proc := by
  unfold switch Returns
  cases ins.opcode with
  | alloc =>
    dsimp only
    rw [← liballoc_returns_iff proc.krnl ins.arg0]
    exact exists_bind_ok_iff fun _ => ⟨_, rfl⟩
  | free =>
    dsimp only
    rw [← libfree_returns_iff]
    exact exists_bind_ok_iff fun _ => ⟨_, rfl⟩
  | read =>
    dsimp only
    rw [← libread_returns_iff proc.krnl _ ins.arg1 raw.data]
    exact exists_bind_ok_iff fun _ => ⟨_, rfl⟩
  | write =>
    dsimp only
    rw [← libwrite_returns_iff proc.krnl (ins.arg0.setWidth 8) _ ins.arg2]
    exact exists_bind_ok_iff fun _ => ⟨_, rfl⟩
  | syscall =>
    dsimp only
    rw [← SysMemmap.syscall_returns_iff]
    exact exists_bind_ok_iff fun _ => ⟨_, rfl⟩
  | _ => exact iff_of_true ⟨_, rfl⟩ trivial

/-- And so does `run` in front of it. -/
theorem run_returns_iff (hpc : proc.pc < proc.code.size)
    (hins : proc.code.text[proc.pc.toNat]? = some ins) :
    (∃ stat proc', run raw proc = .ok (stat, proc')) ↔ Returns raw ins proc := by
  have hswitch : (∃ result, switch raw ins { proc with pc := proc.pc + 1 } = .ok result) ↔
      Returns raw ins proc := switch_returns_iff raw ins { proc with pc := proc.pc + 1 }
  rw [← hswitch]
  constructor
  · rintro ⟨stat, proc', hrun⟩
    obtain ⟨ins', h⟩ := (run_eq_ok_iff hpc hins).mp hrun
    exact ⟨_, h⟩
  · rintro ⟨⟨stat, ins', proc'⟩, h⟩
    exact ⟨stat, proc', (run_eq_ok_iff hpc hins).mpr ⟨ins', h⟩⟩

/-- An instruction leaves the registers and the program alone, and moves the program
counter by one. -/
theorem run_frame (hpc : proc.pc < proc.code.size) (h : run raw proc = .ok (stat, proc')) :
    proc'.code = proc.code ∧ proc'.regs = proc.regs ∧ proc'.pc.toNat = proc.pc.toNat + 1 := by
  cases hins : proc.code.text[proc.pc.toNat]? with
  | none =>
    unfold run at h
    rw [if_neg (BitVec.not_le.mpr hpc), hins] at h
    cases h
  | some ins =>
    obtain ⟨ins', hswitch⟩ := (run_eq_ok_iff hpc hins).mp h
    rw [switch_frame hswitch]
    refine ⟨rfl, rfl, ?_⟩
    have hlt : proc.pc.toNat < proc.code.size.toNat := hpc
    have hsize : proc.code.size.toNat < 2 ^ 32 := proc.code.size.isLt
    have hone : (1 : BitVec 32).toNat = 1 := rfl
    show (proc.pc + 1).toNat = _
    rw [BitVec.toNat_add, hone]
    exact Nat.mod_eq_of_lt (by omega)

/-- The instruction that is executed and the new program counter are those of the
scheduler's model. -/
theorem run_refines (hlen : proc.code.text.length = proc.code.size.toNat)
    (h : run raw proc = .ok (stat, proc')) :
    Os.run proc.code.text proc.pc.toNat = (proc.code.text[proc.pc.toNat]?, proc'.pc.toNat) := by
  unfold Os.run
  rw [hlen]
  rcases Nat.lt_or_ge proc.pc.toNat proc.code.size.toNat with hlt | hge
  · rw [if_neg (Nat.not_le.mpr hlt), (run_frame hlt h).2.2]
  · rw [run_end hge] at h
    cases h
    rw [if_pos hge, List.getElem?_eq_none (hlen ▸ hge)]

end Step

/-! ## The destination -/

/-- What `libread` returns and stores. -/
theorem libread_eq {krnl krnl' : Krnl} {source destination : BitVec 32} {offset : Addr}
    {data : BitVec 8} {val : ℤ}
    (h : libread krnl source offset data = .ok (val, destination, krnl')) :
    val = 0 ∧ destination.setWidth 8 = data := by
  obtain ⟨hval, rfl, -⟩ := libread_eq_ok_iff.mp h
  exact ⟨hval, SysMemmap.setWidth_signExtend (by decide) data⟩

section Documented

variable {raw : Raw} {ins : Inst} {proc : Pcb}

/-- An instruction has its documented effect exactly if what it calls returns, and it
does not read into a register, or the register held the byte before. -/
theorem documented_iff (hpc : proc.pc < proc.code.size)
    (hins : proc.code.text[proc.pc.toNat]? = some ins) :
    Documented raw ins proc ↔
      Returns raw ins proc ∧ (ins.opcode = .read → ∀ d : Fin 10, ins.arg2.toNat = d →
        proc.regs d = raw.data.setWidth 64) := by
  rw [← run_returns_iff hpc hins]
  constructor
  · rintro ⟨stat, proc', hrun, heffect⟩
    refine ⟨⟨stat, proc', hrun⟩, fun hop d hd => ?_⟩
    -- Behind a `READ` that returned there is a `libread` that did.
    have hreturns := (run_returns_iff hpc hins).mp ⟨stat, proc', hrun⟩
    unfold Returns at hreturns
    rw [hop] at hreturns
    obtain ⟨⟨val, destination, krnl'⟩, hread⟩ :=
      (libread_returns_iff proc.krnl _ ins.arg1 raw.data).mpr hreturns
    obtain ⟨rfl, hbyte⟩ := libread_eq hread
    have hreg := heffect.read hop d hd _ _ _ hread
    rwa [if_pos rfl, hbyte, (run_frame hpc hrun).2.1] at hreg
  · rintro ⟨⟨stat, proc', hrun⟩, hheld⟩
    obtain ⟨hcode, hregs, hcount⟩ := run_frame hpc hrun
    refine ⟨stat, proc', hrun, hcount, hcode, ?_, fun _ r _ => by rw [hregs], fun _ => hregs⟩
    intro hop d hd val destination krnl' hread
    obtain ⟨rfl, hbyte⟩ := libread_eq hread
    rw [if_pos rfl, hbyte, hregs]
    exact hheld hop d hd

end Documented

/-- `READ 1 0 2`. -/
def readIns : Inst where
  opcode := .read
  arg0 := 1
  arg1 := 0
  arg2 := 2
  arg3 := 0

/-- A process at this instruction, with 0 in every register. -/
def readProc : Pcb where
  code := ⟨[readIns], 1⟩
  regs := fun _ => 0
  pc := 0
  krnl := bareKrnl
  devs := fun _ => none

/-- The stack holds the byte `data`. -/
def rawByte (data : BitVec 8) : Raw where
  data := data
  memmap := SysMemmap.nullRaw 0

/-- The byte is the one in the register. -/
theorem documented_readProc : Documented (rawByte 0) readIns readProc := by
  have hreturns : Returns (rawByte 0) readIns readProc := ⟨by decide, by decide⟩
  exact (documented_iff (by decide) rfl).mpr ⟨hreturns, fun _ d _ => rfl⟩

/-- `libread` returns 0 and stores the byte 65, and register 2 still holds 0. -/
theorem run_read_lost :
    readProc.pc < readProc.code.size ∧ readProc.code.text[readProc.pc.toNat]? = some readIns ∧
    libread readProc.krnl 1 0 (rawByte 65).data = .ok (0, 65, bareKrnl) ∧
    (∃ proc', run (rawByte 65) readProc = .ok (0, proc') ∧ proc'.regs 2 = 0) ∧
    ¬ Documented (rawByte 65) readIns readProc := by
  have hread : libread readProc.krnl 1 0 (rawByte 65).data = .ok (0, 65, bareKrnl) := rfl
  have hrun : run (rawByte 65) readProc = .ok (0, { readProc with pc := 1 }) := rfl
  refine ⟨by decide, rfl, hread, ⟨{ readProc with pc := 1 }, hrun, rfl⟩, ?_⟩
  rintro ⟨stat, proc', hrun', heffect⟩
  cases hrun.symm.trans hrun'
  have hbyte := heffect.read rfl 2 rfl 0 65 bareKrnl hread
  exact absurd hbyte (by decide)

/-! ## Whole runs -/

/-- A process that executes one instruction after the other. -/
def process : Lts Pcb Raw where
  init _ := True
  step proc raw proc' := ∃ stat, run raw proc = .ok (stat, proc')

/-- However many instructions a process executes, its registers stay what they were,
and its program counter counts the instructions until the end of the program. -/
theorem regs_along {proc proc' : Pcb} {raws : List Raw} (h : process.Run proc raws proc')
    (hpc : proc.pc ≤ proc.code.size) :
    proc'.regs = proc.regs ∧ proc'.code = proc.code ∧
      proc'.pc.toNat = min (proc.pc.toNat + raws.length) proc.code.size.toNat := by
  refine h.trace_invariant (I := fun raws proc' => proc'.regs = proc.regs ∧
    proc'.code = proc.code ∧
    proc'.pc.toNat = min (proc.pc.toNat + raws.length) proc.code.size.toNat) ?_ ?_
  · exact ⟨rfl, rfl, (min_eq_left hpc).symm⟩
  · rintro raws proc₁ raw proc₂ - ⟨hregs, hcode, hcount⟩ ⟨stat, hrun⟩
    rw [List.length_append, List.length_singleton]
    rcases Nat.lt_or_ge proc₁.pc.toNat proc₁.code.size.toNat with hlt | hge
    · obtain ⟨hcode', hregs', hpc'⟩ := run_frame hlt hrun
      refine ⟨hregs'.trans hregs, hcode'.trans hcode, ?_⟩
      rw [hcode] at hlt
      omega
    · rw [run_end hge] at hrun
      cases hrun
      refine ⟨hregs, hcode, ?_⟩
      rw [hcode] at hge
      omega

end Cpu

end SimpleOs
