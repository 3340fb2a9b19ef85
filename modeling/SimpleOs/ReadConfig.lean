import SimpleOs.Loader

/-!
# The configuration file

`read_config` reads the file that `./os` is started with: the slice of time and the
numbers of CPUs and processes with `%d`, the sizes of the memory and of the swap
devices with `%lu`, and then one process a line, whose name `%s` reads into
`proc[100]` and `strcat` appends to `input/proc/` in an array of 100 characters.
No result of `fscanf` is looked at, so a conversion that fails leaves a variable as
it was.

Results:
1. `readsBack_iff`: exactly the files with fewer than `2 ^ 31` processes and names
   of at most 88 characters are read as they are printed; a longer name overflows an
   array.
2. `readConfig_documented`: what the two formats of the documentation give.
-/

namespace SimpleOs

namespace Os

open Scanf SimpleOs.Loader

/-- The number of swap devices, `PAGING_MAX_MMSWP`. -/
def pagingMaxMmswp : ℕ := 4

/-- An entry of each array of `struct ld_args`. -/
structure LdProcess where
  path : List Char
  startTime : BitVec 64
  prio : BitVec 64
  deriving DecidableEq

/-- The variables of the file that `read_config` assigns. -/
structure Globals where
  timeSlot : BitVec 32
  numCpus : BitVec 32
  numProcesses : BitVec 32
  memramsz : BitVec 64
  memswpsz : List (BitVec 64)
  ldProcesses : List LdProcess
  deriving DecidableEq

/-- Their values before `main`. -/
def initial : Globals where
  timeSlot := 0
  numCpus := 0
  numProcesses := 0
  memramsz := 0
  memswpsz := .replicate pagingMaxMmswp 0
  ldProcesses := []

/-- What the memory holds that `read_config` does not initialise: the arrays that it
allocates, and `proc` in each round of the loop. -/
structure ConfigRaw where
  startTime : ℕ → BitVec 64
  prio : ℕ → BitVec 64
  proc : ℕ → List Char

/-- The size of `proc` and of the arrays for the paths. -/
def pathSize : ℕ := 100

/-- `strcat` into an array of `size` characters. -/
def strcat (size : ℕ) (dest src : List Char) : Except Undefined (List Char) :=
  if dest.length + src.length < size then .ok (dest ++ src) else .error .overflow

/-- The directory of the programs. -/
def procDir : List Char :=
  "input/proc/".toList

/-- The loop over `memswpsz`. -/
def readSizes : List (BitVec 64) → Input → Except Stop (List (BitVec 64) × Input)
  | [], file => .ok ([], file)
  | old :: sizes, file => do
    let (vals, file) ← call (scan [.unsigned 64] file)
    let (sizes, file) ← readSizes sizes file
    return (storeNum vals 0 old :: sizes, file)

/-- `"%lu %s %lu\n"`. -/
def processFormat : List Directive :=
  [.unsigned 64, .space, .word pathSize, .space, .unsigned 64, .space]

/-- Round `i` of the loop over the processes. -/
def readProcess (raw : ConfigRaw) (i : ℕ) (file : Input) : Except Stop (LdProcess × Input) := do
  let (vals, file) ← call (scan processFormat file)
  let proc := storeWord vals 1 (raw.proc i)
  let path ← call (strcat pathSize procDir (cString proc))
  return (⟨path, storeNum vals 0 (raw.startTime i), storeNum vals 2 (raw.prio i)⟩, file)

/-- `n` rounds from round `i` on. -/
def readProcesses (raw : ConfigRaw) : ℕ → ℕ → Input → Except Stop (List LdProcess)
  | 0, _, _ => .ok []
  | n + 1, i, file => do
    let (proc, file) ← readProcess raw i file
    let procs ← readProcesses raw n (i + 1) file
    return proc :: procs

/-- `read_config`. `file` is what `fopen` finds. -/
def readConfig (raw : ConfigRaw) (g : Globals) (path : List Char) (file : Option Input) :
    Except Stop Globals := do
  match file with
  | none => throw (.exit ("Cannot find configure file at " ++ String.ofList path ++ "\n"))
  | some file =>
    let (ks, file) ← call (scanInts 32 3 file)
    let numProcesses := storeInt ks 2 g.numProcesses
    let (vals, file) ← call (scan [.unsigned 64, .space] file)
    let (memswpsz, file) ← readSizes g.memswpsz file
    let (_, file) ← call (scan [.space] file)
    let ldProcesses ← readProcesses raw numProcesses.toInt.toNat 0 file
    return {
      timeSlot := storeInt ks 0 g.timeSlot
      numCpus := storeInt ks 1 g.numCpus
      numProcesses := numProcesses
      memramsz := storeNum vals 0 g.memramsz
      memswpsz := memswpsz
      ldProcesses := ldProcesses }

/-! ## Configuration files -/

/-- A line for a process. -/
structure ProcessLine where
  startTime : BitVec 64
  name : List Char
  prio : BitVec 64
  isWord_name : IsWord name
  name_ne_null : ∀ c ∈ name, c ≠ '\x00'

/-- A configuration. -/
structure ConfigFile where
  timeSlot : BitVec 32
  numCpus : BitVec 32
  memramsz : BitVec 64
  memswpsz : List (BitVec 64)
  processes : List ProcessLine
  length_memswpsz : memswpsz.length = pagingMaxMmswp

def printProcess (p : ProcessLine) : Input :=
  Nat.toDigits 10 p.startTime.toNat ++ ' ' :: (p.name ++ ' ' ::
    (Nat.toDigits 10 p.prio.toNat ++ ['\n']))

def printProcesses (procs : List ProcessLine) : Input :=
  procs.flatMap printProcess

/-- `[time slice] [N = Number of CPU] [M = Number of Processes to be run]`. -/
def printHeader (cfg : ConfigFile) : Input :=
  printInt cfg.timeSlot.toInt ++ ' ' :: (printInt cfg.numCpus.toInt ++ ' ' ::
    (printInt cfg.processes.length ++ ['\n']))

/-- `MEM_RAM_SZ MEM_SWP0_SZ MEM_SWP1_SZ MEM_SWP2_SZ MEM_SWP3_SZ`. -/
def printSizes (cfg : ConfigFile) : Input :=
  Nat.toDigits 10 cfg.memramsz.toNat ++ printNums (cfg.memswpsz.map BitVec.toNat) ++ ['\n']

/-- The file that `read_config` describes. -/
def printConfig (cfg : ConfigFile) : Input :=
  printHeader cfg ++ printSizes cfg ++ printProcesses cfg.processes

def ProcessLine.entry (p : ProcessLine) : LdProcess :=
  ⟨procDir ++ p.name, p.startTime, p.prio⟩

/-- What the variables are to be. -/
def ConfigFile.globals (cfg : ConfigFile) : Globals where
  timeSlot := cfg.timeSlot
  numCpus := cfg.numCpus
  numProcesses := BitVec.ofNat 32 cfg.processes.length
  memramsz := cfg.memramsz
  memswpsz := cfg.memswpsz
  ldProcesses := cfg.processes.map ProcessLine.entry

/-- `read_config` undoes printing, whatever the memory holds and whatever follows. -/
def ConfigFile.ReadsBack (cfg : ConfigFile) : Prop :=
  ∀ raw path rest, readConfig raw initial path (some (printConfig cfg ++ rest)) = .ok cfg.globals

/-! ## One process -/

variable {raw : ConfigRaw} {i : ℕ} {file rest : Input} {p : ProcessLine}

theorem cString_name (p : ProcessLine) : cString p.name = p.name :=
  List.takeWhile_eq_self_iff.mpr fun c hc => decide_eq_true (p.name_ne_null c hc)

theorem printProcess_append (p : ProcessLine) (rest : Input) :
    printProcess p ++ rest = Nat.toDigits 10 p.startTime.toNat ++ ' ' :: (p.name ++ ' ' ::
      (Nat.toDigits 10 p.prio.toNat ++ '\n' :: rest)) := by
  simp [printProcess]

/-- A space before a word in the format changes nothing. -/
theorem scan_processFormat (hfile : file.dropWhile isSpace = printProcess p ++ rest) :
    scan processFormat file =
      if p.name.length < pathSize then
        .ok ([.num p.startTime.toNat, .word p.name, .num p.prio.toNat], rest.dropWhile isSpace)
      else .error .overflow := by
  have hname : (p.name ++ ' ' :: (Nat.toDigits 10 p.prio.toNat ++ '\n' :: rest)).dropWhile isSpace =
      p.name ++ ' ' :: (Nat.toDigits 10 p.prio.toNat ++ '\n' :: rest) := p.isWord_name.dropWhile
  have hprio : (Nat.toDigits 10 p.prio.toNat ++ '\n' :: rest).dropWhile isSpace =
      Nat.toDigits 10 p.prio.toNat ++ '\n' :: rest := (isWord_toDigits _).dropWhile
  rw [printProcess_append] at hfile
  rw [processFormat, scan_unsigned hfile rfl p.startTime.isLt, scan,
    List.dropWhile_cons_of_pos rfl, hname]
  split
  · next hlt =>
    rw [scan_word_cons hname p.isWord_name rfl hlt, scan, List.dropWhile_cons_of_pos rfl, hprio,
      scan_unsigned hprio rfl p.prio.isLt]
    rfl
  · next hge =>
    rw [scan_overflow hname p.isWord_name rfl (Nat.not_lt.mp hge)]
    rfl

theorem length_procDir : procDir.length = 11 := rfl

theorem strcat_fits {s : List Char} (h : s.length ≤ 88) :
    strcat pathSize procDir s = .ok (procDir ++ s) := by
  have hpath : procDir.length + s.length < pathSize := by
    rw [length_procDir]
    exact Nat.lt_of_le_of_lt (Nat.add_le_add_left h 11) (by decide)
  rw [strcat, if_pos hpath]

theorem storeNum_toNat {w : ℕ} (k old : BitVec w) (vals : List Value) :
    storeNum (.num k.toNat :: vals) 0 old = k := by
  show BitVec.ofNat w k.toNat = k
  rw [BitVec.ofNat_toNat, BitVec.setWidth_eq]

theorem readProcess_ok (hfile : file.dropWhile isSpace = printProcess p ++ rest)
    (hlen : p.name.length ≤ 88) :
    readProcess raw i file = .ok (p.entry, rest.dropWhile isSpace) := by
  have hproc : p.name.length < pathSize := lt_of_le_of_lt hlen (by decide)
  rw [readProcess, scan_processFormat hfile, if_pos hproc]
  show call (strcat pathSize procDir (cString p.name)) >>= _ = _
  rw [cString_name, strcat_fits hlen]
  show Except.ok (LdProcess.mk _ (BitVec.ofNat 64 p.startTime.toNat)
    (BitVec.ofNat 64 p.prio.toNat), _) = _
  rw [BitVec.ofNat_toNat, BitVec.ofNat_toNat, BitVec.setWidth_eq, BitVec.setWidth_eq]
  rfl

/-- A name that is too long overflows `proc`, or else the path. -/
theorem readProcess_overflow (hfile : file.dropWhile isSpace = printProcess p ++ rest)
    (hlen : 88 < p.name.length) :
    readProcess raw i file = .error (.undefined .overflow) := by
  have hpath : ¬ procDir.length + p.name.length < pathSize := by
    rw [length_procDir, Nat.not_lt]
    exact Nat.add_le_add_left hlen 11
  rw [readProcess, scan_processFormat hfile]
  split
  · show call (strcat pathSize procDir (cString p.name)) >>= _ = _
    rw [cString_name, strcat, if_neg hpath]
    rfl
  · rfl

/-! ## The processes -/

theorem dropWhile_printProcess (p : ProcessLine) (rest : Input) :
    (printProcess p ++ rest).dropWhile isSpace = printProcess p ++ rest := by
  rw [printProcess_append]
  exact (isWord_toDigits _).dropWhile

theorem printProcesses_cons (p : ProcessLine) (procs : List ProcessLine) (rest : Input) :
    printProcesses (p :: procs) ++ rest = printProcess p ++ (printProcesses procs ++ rest) := by
  rw [printProcesses, List.flatMap_cons, List.append_assoc, printProcesses]

theorem readProcesses_ok {procs : List ProcessLine}
    (hfile : file.dropWhile isSpace = (printProcesses procs ++ rest).dropWhile isSpace)
    (hlen : ∀ p ∈ procs, p.name.length ≤ 88) :
    readProcesses raw procs.length i file = .ok (procs.map ProcessLine.entry) := by
  induction procs generalizing i file with
  | nil => rfl
  | cons p procs ih =>
    rw [printProcesses_cons, dropWhile_printProcess] at hfile
    rw [List.length_cons, readProcesses, readProcess_ok hfile (hlen p List.mem_cons_self)]
    show readProcesses raw procs.length (i + 1) _ >>= _ = _
    rw [ih (List.dropWhile_idempotent ..) fun q hq => hlen q (List.mem_cons_of_mem _ hq)]
    rfl

theorem readProcesses_overflow {procs : List ProcessLine}
    (hfile : file.dropWhile isSpace = (printProcesses procs ++ rest).dropWhile isSpace)
    (hlong : ∃ p ∈ procs, 88 < p.name.length) :
    readProcesses raw procs.length i file = .error (.undefined .overflow) := by
  induction procs generalizing i file with
  | nil =>
    obtain ⟨p, hmem, -⟩ := hlong
    cases hmem
  | cons p procs ih =>
    rw [printProcesses_cons, dropWhile_printProcess] at hfile
    rw [List.length_cons, readProcesses]
    rcases Nat.lt_or_ge 88 p.name.length with hp | hp
    · rw [readProcess_overflow hfile hp]
      rfl
    · have hrest : ∃ q ∈ procs, 88 < q.name.length := by
        obtain ⟨q, hmem, hq⟩ := hlong
        rcases List.mem_cons.mp hmem with rfl | hmem
        · exact absurd hq (Nat.not_lt.mpr hp)
        · exact ⟨q, hmem, hq⟩
      rw [readProcess_ok hfile hp]
      show readProcesses raw procs.length (i + 1) _ >>= _ = _
      rw [ih (List.dropWhile_idempotent ..) hrest]
      rfl

/-! ## The sizes and the header -/

/-- The sizes are read wherever white space stands. -/
theorem readSizes_ok {olds sizes : List (BitVec 64)} {c : Char}
    (hfile : file.dropWhile isSpace =
      (printNums (sizes.map BitVec.toNat) ++ c :: rest).dropWhile isSpace)
    (hlen : olds.length = sizes.length) (hc : isSpace c = true) :
    ∃ file', readSizes olds file = .ok (sizes, file') ∧
      file'.dropWhile isSpace = rest.dropWhile isSpace := by
  induction olds generalizing sizes file with
  | nil =>
    obtain rfl := List.length_eq_zero_iff.mp hlen.symm
    exact ⟨file, rfl, hfile.trans (List.dropWhile_cons_of_pos hc)⟩
  | cons old olds ih =>
    cases sizes with
    | nil => cases hlen
    | cons size sizes =>
      obtain ⟨d, rest', hrest, hd⟩ := printNums_append_eq_cons (sizes.map BitVec.toNat) rest hc
      have hnum : file.dropWhile isSpace = Nat.toDigits 10 size.toNat ++ d :: rest' := by
        rw [hfile, ← hrest, List.map_cons, printNums, List.flatMap_cons, List.cons_append,
          List.cons_append, List.dropWhile_cons_of_pos rfl, List.append_assoc]
        exact (isWord_toDigits _).dropWhile
      obtain ⟨file', hread, hfile'⟩ := ih (congrArg _ hrest.symm) (Nat.succ.inj hlen)
      refine ⟨file', ?_, hfile'⟩
      rw [readSizes, scan_unsigned hnum hd size.isLt]
      show readSizes olds (d :: rest') >>= _ = _
      rw [hread]
      exact congrArg (fun k => Except.ok (k :: sizes, file')) (storeNum_toNat size old [])

theorem toInt_range (k : BitVec 32) : -2 ^ (32 - 1) ≤ k.toInt ∧ k.toInt < 2 ^ (32 - 1) :=
  ⟨BitVec.le_toInt k, BitVec.toInt_lt⟩

theorem scan_printHeader (cfg : ConfigFile) (rest : Input) :
    scanInts 32 3 (printHeader cfg ++ rest) =
      if cfg.processes.length < 2 ^ 31 then
        .ok ([cfg.timeSlot.toInt, cfg.numCpus.toInt, cfg.processes.length], rest.dropWhile isSpace)
      else .error .range := by
  have happend : printHeader cfg ++ rest = printInt cfg.timeSlot.toInt ++ ' ' ::
      (printInt cfg.numCpus.toInt ++ ' ' :: (printInt cfg.processes.length ++ '\n' :: rest)) := by
    simp [printHeader]
  rw [happend, scanInts_cons rfl (toInt_range _), (isWord_printInt _).dropWhile,
    scanInts_cons rfl (toInt_range _), (isWord_printInt _).dropWhile]
  split
  · next hlt =>
    rw [scanInts_cons rfl ⟨by omega, by omega⟩]
    rfl
  · next hge =>
    rw [scanInts_range rfl (by omega)]
    rfl

/-- `read_config` behind the header. -/
theorem readConfig_printHeader {cfg : ConfigFile} {path : List Char} {vals : List Value}
    {sizes : List (BitVec 64)} {file₁ file₂ : Input} (hlen : cfg.processes.length < 2 ^ 31)
    (hram : scan [.unsigned 64, .space] (rest.dropWhile isSpace) = .ok (vals, file₁))
    (hsizes : readSizes initial.memswpsz file₁ = .ok (sizes, file₂)) :
    readConfig raw initial path (some (printHeader cfg ++ rest)) =
      (readProcesses raw cfg.processes.length 0 (file₂.dropWhile isSpace)).map fun procs =>
        { cfg.globals with
          memramsz := storeNum vals 0 0
          memswpsz := sizes
          ldProcesses := procs } := by
  have hcount : (BitVec.ofInt 32 cfg.processes.length).toInt.toNat = cfg.processes.length := by
    rw [BitVec.toInt_ofInt_eq_self (by decide) (by omega) (by omega), Int.toNat_natCast]
  unfold readConfig
  dsimp only
  rw [scan_printHeader, if_pos hlen]
  show call (scan _ (rest.dropWhile isSpace)) >>= _ = _
  rw [hram]
  show readSizes initial.memswpsz file₁ >>= _ = _
  rw [hsizes]
  show readProcesses raw (BitVec.ofInt 32 cfg.processes.length).toInt.toNat 0
    (file₂.dropWhile isSpace) >>= _ = _
  rw [hcount]
  cases readProcesses raw cfg.processes.length 0 (file₂.dropWhile isSpace) with
  | error stop => rfl
  | ok procs =>
    show Except.ok ({ timeSlot := BitVec.ofInt 32 cfg.timeSlot.toInt
                      numCpus := BitVec.ofInt 32 cfg.numCpus.toInt
                      numProcesses := BitVec.ofInt 32 cfg.processes.length, .. } : Globals) = _
    rw [BitVec.ofInt_toInt, BitVec.ofInt_toInt, BitVec.ofInt_natCast]
    rfl

/-- The line of the sizes. -/
theorem scan_printSizes (cfg : ConfigFile) (rest : Input) :
    ∃ file₁ file₂,
      scan [.unsigned 64, .space] ((printSizes cfg ++ rest).dropWhile isSpace) =
        .ok ([.num cfg.memramsz.toNat], file₁) ∧
      readSizes initial.memswpsz file₁ = .ok (cfg.memswpsz, file₂) ∧
      file₂.dropWhile isSpace = rest.dropWhile isSpace := by
  obtain ⟨d, rest', hrest, hd⟩ := printNums_append_eq_cons (cfg.memswpsz.map BitVec.toNat) rest
    (show isSpace '\n' = true from rfl)
  have happend : printSizes cfg ++ rest = Nat.toDigits 10 cfg.memramsz.toNat ++ d :: rest' := by
    rw [← hrest]
    simp [printSizes]
  have hram : ((printSizes cfg ++ rest).dropWhile isSpace).dropWhile isSpace =
      Nat.toDigits 10 cfg.memramsz.toNat ++ d :: rest' := by
    rw [List.dropWhile_idempotent, happend]
    exact (isWord_toDigits _).dropWhile
  have hsizes : (rest'.dropWhile isSpace).dropWhile isSpace =
      (printNums (cfg.memswpsz.map BitVec.toNat) ++ '\n' :: rest).dropWhile isSpace := by
    rw [List.dropWhile_idempotent, hrest, List.dropWhile_cons_of_pos hd]
  obtain ⟨file₂, hread, hfile₂⟩ := readSizes_ok hsizes
    (by rw [cfg.length_memswpsz]; rfl : initial.memswpsz.length = _) rfl
  refine ⟨_, file₂, ?_, hread, hfile₂⟩
  rw [scan_unsigned hram hd cfg.memramsz.isLt, scan, List.dropWhile_cons_of_pos hd]
  rfl

/-- What `read_config` does with a printed configuration. -/
theorem readConfig_printConfig {cfg : ConfigFile} {path : List Char}
    (hlen : cfg.processes.length < 2 ^ 31) :
    ∃ file, file.dropWhile isSpace = (printProcesses cfg.processes ++ rest).dropWhile isSpace ∧
      readConfig raw initial path (some (printConfig cfg ++ rest)) =
        (readProcesses raw cfg.processes.length 0 file).map fun procs =>
          { cfg.globals with ldProcesses := procs } := by
  obtain ⟨file₁, file₂, hram, hsizes, hfile₂⟩ :=
    scan_printSizes cfg (printProcesses cfg.processes ++ rest)
  refine ⟨file₂.dropWhile isSpace, by rw [List.dropWhile_idempotent, hfile₂], ?_⟩
  have hfile : printConfig cfg ++ rest =
      printHeader cfg ++ (printSizes cfg ++ (printProcesses cfg.processes ++ rest)) := by
    simp only [printConfig, List.append_assoc]
  rw [hfile, readConfig_printHeader hlen hram hsizes, storeNum_toNat]
  rfl

/-- Memory that is zero. -/
def zeroConfigRaw : ConfigRaw where
  startTime _ := 0
  prio _ := 0
  proc _ := []

/-- The number of processes fits into an `int`, and the names behind `input/proc/`. -/
def ConfigFile.Fits (cfg : ConfigFile) : Prop :=
  cfg.processes.length < 2 ^ 31 ∧ ∀ p ∈ cfg.processes, p.name.length ≤ 88

theorem readConfig_fits {cfg : ConfigFile} (h : cfg.Fits) (raw : ConfigRaw) (path : List Char)
    (rest : Input) :
    readConfig raw initial path (some (printConfig cfg ++ rest)) = .ok cfg.globals := by
  obtain ⟨file, hfile, hcfg⟩ := @readConfig_printConfig raw rest cfg path h.1
  rw [hcfg, readProcesses_ok hfile h.2]
  rfl

/-- A name that does not fit overflows one of the two arrays. -/
theorem readConfig_overflow {cfg : ConfigFile} (hlen : cfg.processes.length < 2 ^ 31)
    (hlong : ∃ p ∈ cfg.processes, 88 < p.name.length) (raw : ConfigRaw) (path : List Char)
    (rest : Input) :
    readConfig raw initial path (some (printConfig cfg ++ rest)) =
      .error (.undefined .overflow) := by
  obtain ⟨file, hfile, hcfg⟩ := @readConfig_printConfig raw rest cfg path hlen
  rw [hcfg, readProcesses_overflow hfile hlong]
  rfl

theorem readConfig_not_fits {cfg : ConfigFile} (h : ¬ cfg.Fits) (raw : ConfigRaw)
    (path : List Char) (rest : Input) :
    ∃ u, readConfig raw initial path (some (printConfig cfg ++ rest)) =
      .error (.undefined u) := by
  by_cases hlen : cfg.processes.length < 2 ^ 31
  · have hlong : ∃ p ∈ cfg.processes, 88 < p.name.length := by
      by_contra hshort
      push Not at hshort
      exact h ⟨hlen, hshort⟩
    exact ⟨.overflow, readConfig_overflow hlen hlong raw path rest⟩
  · have hfile : printConfig cfg ++ rest =
        printHeader cfg ++ (printSizes cfg ++ (printProcesses cfg.processes ++ rest)) := by
      simp only [printConfig, List.append_assoc]
    refine ⟨.range, ?_⟩
    unfold readConfig
    dsimp only
    rw [hfile, scan_printHeader, if_neg hlen]
    rfl

/-- Reading undoes printing exactly for the configurations with a number of processes
that fits into an `int`, and with names that fit behind `input/proc/`; a longer name
overflows an array. -/
theorem readsBack_iff (cfg : ConfigFile) :
    (cfg.ReadsBack ↔
      cfg.processes.length < 2 ^ 31 ∧ ∀ p ∈ cfg.processes, p.name.length ≤ 88) ∧
    (cfg.processes.length < 2 ^ 31 → (∃ p ∈ cfg.processes, 88 < p.name.length) →
      ∀ raw path rest, readConfig raw initial path (some (printConfig cfg ++ rest)) =
        .error (.undefined .overflow)) := by
  refine ⟨⟨fun h => ?_, readConfig_fits⟩, readConfig_overflow⟩
  by_contra hfits
  obtain ⟨u, hu⟩ := readConfig_not_fits hfits zeroConfigRaw [] []
  cases (h zeroConfigRaw [] []).symm.trans hu

/-! ## The formats of the documentation -/

/-- The format without sizes. -/
def printOverview (cfg : ConfigFile) : Input :=
  printHeader cfg ++ printProcesses cfg.processes

/-- The format with sizes, which has a line `[KERNEL_BASE_ADDR]` in front of them. -/
def printKernelBase (base : BitVec 64) (cfg : ConfigFile) : Input :=
  printHeader cfg ++ (Nat.toDigits 10 base.toNat ++ ['\n']) ++ printSizes cfg ++
    printProcesses cfg.processes

/-- A name that `%lu` does not take for a number. -/
def NoNumber (name : List Char) : Prop :=
  ∀ c ∈ name.head?, c.isDigit = false ∧ c ≠ '-' ∧ c ≠ '+'

/-- An entry that no conversion has assigned. -/
def ConfigRaw.entry (raw : ConfigRaw) (i : ℕ) : LdProcess :=
  ⟨procDir ++ cString (raw.proc i), raw.startTime i, raw.prio i⟩

/-- What the memory holds in `proc` fits behind `input/proc/`. -/
def ConfigRaw.Fits (raw : ConfigRaw) : Prop :=
  ∀ i, (cString (raw.proc i)).length ≤ 88

/-- No conversion goes past a word that is no number. -/
theorem scan_name {name : List Char} {format : List Directive} (hword : IsWord name)
    (hname : NoNumber name) (hfile : file.dropWhile isSpace = name ++ rest) :
    scan (.unsigned 64 :: format) file = .ok ([], name ++ rest) := by
  cases name with
  | nil => exact absurd rfl hword.1
  | cons c name =>
    obtain ⟨hdigit, hminus, hplus⟩ := hname c rfl
    exact scan_none hfile hdigit hminus hplus

theorem readSizes_name {name : List Char} (olds : List (BitVec 64)) (hword : IsWord name)
    (hname : NoNumber name) (hfile : file.dropWhile isSpace = name ++ rest) :
    ∃ file', readSizes olds file = .ok (olds, file') ∧
      file'.dropWhile isSpace = name ++ rest := by
  induction olds generalizing file with
  | nil => exact ⟨file, rfl, hfile⟩
  | cons old olds ih =>
    have hdrop : (name ++ rest).dropWhile isSpace = name ++ rest := hword.dropWhile
    obtain ⟨file', hread, hfile'⟩ := ih hdrop
    refine ⟨file', ?_, hfile'⟩
    rw [readSizes, scan_name hword hname hfile]
    show readSizes olds (name ++ rest) >>= _ = _
    rw [hread]
    rfl

theorem readProcesses_name {name : List Char} {n : ℕ} (hraw : raw.Fits) (hword : IsWord name)
    (hname : NoNumber name) (hfile : file.dropWhile isSpace = name ++ rest) :
    readProcesses raw n i file = .ok ((List.range' i n).map raw.entry) := by
  induction n generalizing i file with
  | zero => rfl
  | succ n ih =>
    rw [readProcesses, readProcess, processFormat, scan_name hword hname hfile]
    show (call (strcat pathSize procDir (cString (raw.proc i))) >>= _) >>= _ = _
    rw [strcat_fits (hraw i)]
    show readProcesses raw n (i + 1) (name ++ rest) >>= _ = _
    have hdrop : (name ++ rest).dropWhile isSpace = name ++ rest := hword.dropWhile
    rw [ih hdrop]
    rfl

/-- The line of the first process when `read_config` expects the sizes. -/
theorem readConfig_printOverview {cfg : ConfigFile} {path : List Char} {ps : List ProcessLine}
    (hcfg : cfg.processes = p :: ps) (hlen : cfg.processes.length < 2 ^ 31)
    (hname : NoNumber p.name) (hraw : raw.Fits) :
    readConfig raw initial path (some (printOverview cfg ++ rest)) =
      .ok { cfg.globals with
        memramsz := p.startTime
        memswpsz := initial.memswpsz
        ldProcesses := (List.range' 0 cfg.processes.length).map raw.entry } := by
  let file : Input := ' ' :: (Nat.toDigits 10 p.prio.toNat ++ '\n' :: (printProcesses ps ++ rest))
  have hrest : printProcesses cfg.processes ++ rest =
      Nat.toDigits 10 p.startTime.toNat ++ ' ' :: (p.name ++ file) := by
    rw [hcfg, printProcesses_cons, printProcess_append]
  have hstart : ((printProcesses cfg.processes ++ rest).dropWhile isSpace).dropWhile isSpace =
      Nat.toDigits 10 p.startTime.toNat ++ ' ' :: (p.name ++ file) := by
    rw [List.dropWhile_idempotent, hrest]
    exact (isWord_toDigits _).dropWhile
  have hword : (p.name ++ file).dropWhile isSpace = p.name ++ file := p.isWord_name.dropWhile
  obtain ⟨file₂, hsizes, hfile₂⟩ := readSizes_name initial.memswpsz p.isWord_name hname hword
  have hram : scan [.unsigned 64, .space] ((printProcesses cfg.processes ++ rest).dropWhile isSpace)
      = .ok ([.num p.startTime.toNat], p.name ++ file) := by
    rw [scan_unsigned hstart rfl p.startTime.isLt, scan, List.dropWhile_cons_of_pos rfl, hword]
    rfl
  rw [printOverview, List.append_assoc, readConfig_printHeader hlen hram hsizes, hfile₂,
    readProcesses_name hraw p.isWord_name hname hword, storeNum_toNat]
  rfl

theorem printNums_append (ns ms : List ℕ) : printNums (ns ++ ms) = printNums ns ++ printNums ms :=
  List.flatMap_append ..

/-- The sizes when `read_config` has read the address for the first of them. -/
theorem readSizes_printSizes (cfg : ConfigFile) (rest : Input) :
    ∃ file₂,
      readSizes initial.memswpsz ((printSizes cfg ++ rest).dropWhile isSpace) =
        .ok (cfg.memramsz :: cfg.memswpsz.dropLast, file₂) ∧
      file₂.dropWhile isSpace =
        Nat.toDigits 10 (cfg.memswpsz.getLastD 0).toNat ++ '\n' :: rest := by
  have hne : cfg.memswpsz ≠ [] := by
    intro hnil
    have hlen := cfg.length_memswpsz
    rw [hnil] at hlen
    cases hlen
  have hlast : cfg.memswpsz.getLastD 0 = cfg.memswpsz.getLast hne := by
    rw [List.getLastD_eq_getLast?, List.getLast?_eq_getLast_of_ne_nil hne, Option.getD_some]
  have hsplit : cfg.memswpsz.dropLast ++ [cfg.memswpsz.getLast hne] = cfg.memswpsz :=
    List.dropLast_append_getLast hne
  have hfile : ((printSizes cfg ++ rest).dropWhile isSpace).dropWhile isSpace =
      (printNums ((cfg.memramsz :: cfg.memswpsz.dropLast).map BitVec.toNat) ++
        ' ' :: (Nat.toDigits 10 (cfg.memswpsz.getLast hne).toNat ++ '\n' :: rest)).dropWhile
          isSpace := by
    rw [List.dropWhile_idempotent, printSizes]
    nth_rewrite 1 [← hsplit]
    rw [List.map_append, printNums_append, List.map_cons]
    simp only [printNums, List.flatMap_cons, List.cons_append, List.map_cons, List.map_nil,
      List.flatMap_nil, List.append_nil, List.append_assoc]
    rw [List.dropWhile_cons_of_pos rfl]
    rfl
  obtain ⟨file₂, hread, hfile₂⟩ := readSizes_ok hfile
    (by rw [List.length_cons, List.length_dropLast, cfg.length_memswpsz]; rfl :
      initial.memswpsz.length = _) rfl
  refine ⟨file₂, hread, ?_⟩
  rw [hfile₂, hlast]
  exact (isWord_toDigits _).dropWhile

theorem length_toDigits_le (k : BitVec 64) : (Nat.toDigits 10 k.toNat).length ≤ 20 :=
  (Nat.length_toDigits_le_iff (by decide) (by decide)).mpr (lt_trans k.isLt (by norm_num))

theorem cString_toDigits (n : ℕ) : cString (Nat.toDigits 10 n) = Nat.toDigits 10 n := by
  refine List.takeWhile_eq_self_iff.mpr fun c hc => ?_
  rw [decide_eq_true_eq]
  rintro rfl
  have hdigit := Nat.isDigit_of_mem_toDigits (by decide) (by decide) hc
  cases hdigit

/-- The first process takes the last size for its start time and its start time for
its name. -/
theorem readProcess_shifted {last : BitVec 64} (hname : NoNumber p.name)
    (hfile : file.dropWhile isSpace =
      Nat.toDigits 10 last.toNat ++ '\n' :: (printProcess p ++ rest)) :
    ∃ file', readProcess raw i file =
        .ok (⟨procDir ++ Nat.toDigits 10 p.startTime.toNat, last, raw.prio i⟩,
          p.name ++ file') := by
  let file' : Input := ' ' :: (Nat.toDigits 10 p.prio.toNat ++ '\n' :: rest)
  have hstart : (printProcess p ++ rest).dropWhile isSpace =
      Nat.toDigits 10 p.startTime.toNat ++ ' ' :: (p.name ++ file') := by
    rw [dropWhile_printProcess, printProcess_append]
  have hword : (p.name ++ file').dropWhile isSpace = p.name ++ file' := p.isWord_name.dropWhile
  have hdigits := length_toDigits_le p.startTime
  have hscan : scan processFormat file =
      .ok ([.num last.toNat, .word (Nat.toDigits 10 p.startTime.toNat)], p.name ++ file') := by
    rw [processFormat, scan_unsigned hfile rfl last.isLt, scan, List.dropWhile_cons_of_pos rfl,
      scan_word_cons (by rw [List.dropWhile_idempotent, hstart]) (isWord_toDigits _) rfl
        (Nat.lt_of_le_of_lt hdigits (by decide)),
      scan, List.dropWhile_cons_of_pos rfl, hword, scan_name p.isWord_name hname hword]
    rfl
  refine ⟨file', ?_⟩
  rw [readProcess, hscan]
  show call (strcat pathSize procDir (cString (Nat.toDigits 10 p.startTime.toNat))) >>= _ = _
  rw [cString_toDigits, strcat_fits (le_trans hdigits (by decide))]
  show Except.ok (LdProcess.mk _ (BitVec.ofNat 64 last.toNat) _, _) = _
  rw [BitVec.ofNat_toNat, BitVec.setWidth_eq]
  rfl

/-- The address when `read_config` expects the size of the memory. -/
theorem readConfig_printKernelBase {cfg : ConfigFile} {path : List Char} {ps : List ProcessLine}
    (base : BitVec 64) (hcfg : cfg.processes = p :: ps) (hlen : cfg.processes.length < 2 ^ 31)
    (hname : NoNumber p.name) (hraw : raw.Fits) :
    readConfig raw initial path (some (printKernelBase base cfg ++ rest)) =
      .ok { cfg.globals with
        memramsz := base
        memswpsz := cfg.memramsz :: cfg.memswpsz.dropLast
        ldProcesses :=
          ⟨procDir ++ Nat.toDigits 10 p.startTime.toNat, cfg.memswpsz.getLastD 0, raw.prio 0⟩ ::
            (List.range' 1 ps.length).map raw.entry } := by
  let body := printSizes cfg ++ (printProcesses cfg.processes ++ rest)
  obtain ⟨file₂, hsizes, hfile₂⟩ := readSizes_printSizes cfg (printProcesses cfg.processes ++ rest)
  have hbase : ((Nat.toDigits 10 base.toNat ++ '\n' :: body).dropWhile isSpace).dropWhile isSpace =
      Nat.toDigits 10 base.toNat ++ '\n' :: body := by
    rw [List.dropWhile_idempotent]
    exact (isWord_toDigits _).dropWhile
  have hram : scan [.unsigned 64, .space]
      ((Nat.toDigits 10 base.toNat ++ '\n' :: body).dropWhile isSpace) =
        .ok ([.num base.toNat], body.dropWhile isSpace) := by
    rw [scan_unsigned hbase rfl base.isLt, scan, List.dropWhile_cons_of_pos rfl]
    rfl
  have hfile : printKernelBase base cfg ++ rest =
      printHeader cfg ++ (Nat.toDigits 10 base.toNat ++ '\n' :: body) := by
    simp [printKernelBase, body]
  rw [hcfg, printProcesses_cons] at hfile₂
  obtain ⟨file₃, hfirst⟩ : ∃ file₃, readProcess raw 0 (file₂.dropWhile isSpace) = .ok
      (⟨procDir ++ Nat.toDigits 10 p.startTime.toNat, cfg.memswpsz.getLastD 0, raw.prio 0⟩,
        p.name ++ file₃) :=
    readProcess_shifted hname ((List.dropWhile_idempotent ..).trans hfile₂)
  rw [hfile, readConfig_printHeader hlen hram hsizes, hcfg, List.length_cons, readProcesses,
    hfirst, storeNum_toNat]
  show Except.map _ (readProcesses raw ps.length 1 (p.name ++ file₃) >>= _) = _
  rw [readProcesses_name hraw p.isWord_name hname p.isWord_name.dropWhile]
  rfl

/-- In this build, which reads the sizes and no address, neither format of the
documentation is read as it is meant: without the sizes no process is, and with the
address every size and the first process are shifted. -/
theorem readConfig_documented (raw : ConfigRaw) (cfg : ConfigFile) {ps : List ProcessLine}
    (base : BitVec 64) (path : List Char) (rest : Input) (hcfg : cfg.processes = p :: ps)
    (hlen : cfg.processes.length < 2 ^ 31) (hname : NoNumber p.name) (hraw : raw.Fits) :
    readConfig raw initial path (some (printOverview cfg ++ rest)) =
      .ok { cfg.globals with
        memramsz := p.startTime
        memswpsz := initial.memswpsz
        ldProcesses := (List.range' 0 cfg.processes.length).map raw.entry } ∧
    readConfig raw initial path (some (printKernelBase base cfg ++ rest)) =
      .ok { cfg.globals with
        memramsz := base
        memswpsz := cfg.memramsz :: cfg.memswpsz.dropLast
        ldProcesses :=
          ⟨procDir ++ Nat.toDigits 10 p.startTime.toNat, cfg.memswpsz.getLastD 0, raw.prio 0⟩ ::
            (List.range' 1 ps.length).map raw.entry } :=
  ⟨readConfig_printOverview hcfg hlen hname hraw,
    readConfig_printKernelBase base hcfg hlen hname hraw⟩

/-- Two processes with the names `p0` and `p1`. -/
def twoProcesses : ConfigFile where
  timeSlot := 2
  numCpus := 1
  memramsz := 1048576
  memswpsz := [16777216, 0, 0, 0]
  processes :=
    [⟨0, ['p', '0'], 1, ⟨nofun, by simp [isSpace]⟩, by simp⟩,
      ⟨4, ['p', '1'], 0, ⟨nofun, by simp [isSpace]⟩, by simp⟩]
  length_memswpsz := rfl

theorem readConfig_documented_twoProcesses :
    readConfig zeroConfigRaw initial [] (some (printOverview twoProcesses ++ [])) =
      .ok ⟨2, 1, 2, 0, [0, 0, 0, 0], [⟨procDir, 0, 0⟩, ⟨procDir, 0, 0⟩]⟩ ∧
    readConfig zeroConfigRaw initial [] (some (printKernelBase 4096 twoProcesses ++ [])) =
      .ok ⟨2, 1, 2, 4096, [1048576, 16777216, 0, 0],
        [⟨procDir ++ ['0'], 0, 0⟩, ⟨procDir, 0, 0⟩]⟩ := by
  obtain ⟨h₁, h₂⟩ := readConfig_documented zeroConfigRaw twoProcesses 4096 [] [] rfl
    (by decide) (by simp [NoNumber]) fun i => Nat.zero_le 88
  rw [h₁, h₂]
  exact ⟨rfl, rfl⟩

end Os

end SimpleOs
