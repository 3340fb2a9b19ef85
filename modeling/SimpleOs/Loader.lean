import SimpleOs.Lib.Scanf

/-!
# The loader

`load` reads a program file: the priority, the number of instructions and then one
instruction a line. A mnemonic is read by `%s` into `opcode[10]`, the operands by
`%lu`, and those of the three mnemonics with four operands by `fgets` into
`buf[200]` and `sscanf`.

The mnemonics with ten letters or more do not fit into `opcode`.

Results:
1. `loadsBack_iff`: exactly the programs without these mnemonics and with fewer
   than `2 ^ 32` instructions are loaded as they are printed.
2. `loadInst_overflow`, `loadText_overflow`: the first of these mnemonics writes
   behind the array.
-/

namespace SimpleOs

namespace Loader

open Scanf

/-- `enum ins_opcode_t`. -/
inductive InsOpcode
  | calc
  | alloc
  | free
  | read
  | write
  | kmalloc
  | kmemCacheCreate
  | kmemCacheAlloc
  | copyFromUser
  | copyToUser
  | syscall
  deriving DecidableEq

/-- `struct inst_t`. -/
structure Inst where
  opcode : InsOpcode
  arg0 : BitVec 64
  arg1 : BitVec 64
  arg2 : BitVec 64
  arg3 : BitVec 64
  deriving DecidableEq

/-- `struct code_seg_t`; `text` has `size` entries. -/
structure CodeSeg where
  text : List Inst
  size : BitVec 32

/-- `struct pcb_t`, as far as `load` fills it in. -/
structure Pcb where
  pid : BitVec 32
  priority : BitVec 32
  path : List Char
  code : CodeSeg
  pc : BitVec 32
  bp : BitVec 32

/-- What the memory holds that `load` does not initialise: the structures that it
allocates and its arrays. -/
structure Raw where
  priority : BitVec 32
  size : BitVec 32
  text : ℕ → Inst
  opcode : List Char
  buf : List Char

/-- Why `load` does not return. -/
inductive Stop
  | undefined (u : Undefined)
  /-- `exit(1)`, with what was printed. -/
  | exit (printed : String)
  deriving DecidableEq

/-- A call of the C library. -/
def call {α : Type} (res : Except Undefined α) : Except Stop α :=
  res.mapError .undefined

/-- The mnemonics, `OPT_CALC` and so on. -/
def opt : InsOpcode → List Char
  | .calc => "calc".toList
  | .alloc => "alloc".toList
  | .free => "free".toList
  | .read => "read".toList
  | .write => "write".toList
  | .syscall => "syscall".toList
  | .kmalloc => "kmalloc".toList
  | .kmemCacheCreate => "kmem_cache_create".toList
  | .kmemCacheAlloc => "kmem_cache_alloc".toList
  | .copyFromUser => "copy_from_user".toList
  | .copyToUser => "copy_to_user".toList

/-- The opcodes in the order in which `get_opcode` tries them. -/
def opcodes : List InsOpcode :=
  [.calc, .alloc, .free, .read, .write, .kmalloc, .kmemCacheCreate, .kmemCacheAlloc,
    .copyFromUser, .copyToUser, .syscall]

/-- `get_opcode`. -/
def getOpcode (s : List Char) : Except Stop InsOpcode :=
  match opcodes.find? fun op => opt op = s with
  | some op => .ok op
  | none => .error (.exit ("get_opcode return Opcode: " ++ String.ofList s ++ "\n"))

/-- The numbers that a format assigns to the arguments of an instruction. -/
def Inst.store (inst : Inst) (vals : List Value) : Inst where
  opcode := inst.opcode
  arg0 := storeNum vals 0 inst.arg0
  arg1 := storeNum vals 1 inst.arg1
  arg2 := storeNum vals 2 inst.arg2
  arg3 := storeNum vals 3 inst.arg3

def pageSize : BitVec 32 :=
  1 <<< 10

/-- `sizeof(opcode)`. -/
def opcodeSize : ℕ := 10

/-- `sizeof(buf)`. -/
def bufSize : ℕ := 200

/-- The locals of the loop and the stream. -/
structure Locals where
  opcode : List Char
  buf : List Char
  file : Input

/-- How the operands of an opcode are read: `none` for `fgets` and `sscanf`. -/
def format : InsOpcode → Option (List Directive)
  | .calc => some []
  | .kmemCacheAlloc | .kmalloc | .alloc => some [.unsigned 64, .space, .unsigned 64, .space]
  | .free => some [.unsigned 64, .space]
  | .kmemCacheCreate | .read | .write =>
    some [.unsigned 64, .space, .unsigned 64, .space, .unsigned 64, .space]
  | .copyFromUser | .copyToUser | .syscall => none

/-- The operands of an opcode: the values, `buf` and the stream. -/
def loadArgs (op : InsOpcode) (buf : List Char) (file : Input) :
    Except Stop (List Value × List Char × Input) :=
  match format op with
  | some format => do
    let (vals, file) ← call (scan format file)
    return (vals, buf, file)
  | none => do
    let (line, file) ← call (fgets bufSize bufSize file)
    let buf := line.getD buf
    let (vals, _) ← call (scan (.replicate 4 (.unsigned 64)) (cString buf))
    return (vals, buf, file)

/-- One round of the loop. -/
def loadInst (st : Locals) (inst : Inst) : Except Stop (Inst × Locals) := do
  let (vals, file) ← call (scan [.word opcodeSize] st.file)
  let opcode := storeWord vals 0 st.opcode
  let op ← getOpcode opcode
  let (args, buf, file) ← loadArgs op st.buf file
  return ({ inst with opcode := op }.store args, ⟨opcode, buf, file⟩)

/-- `n` rounds from round `i` on: the entries of `text` that they fill in. -/
def loadText (text : ℕ → Inst) : ℕ → ℕ → Locals → Except Stop (List Inst)
  | 0, _, _ => .ok []
  | n + 1, i, st => do
    let (inst, st) ← loadInst st (text i)
    let insts ← loadText text n (i + 1) st
    return inst :: insts

/-- `load`: the process and `avail_pid`. `file` is what `fopen` finds. -/
def load (raw : Raw) (availPid : BitVec 32) (path : List Char) (file : Option Input) :
    Except Stop (Pcb × BitVec 32) := do
  match file with
  | none =>
    throw (.exit ("Cannot find process description at '" ++ String.ofList path ++ "'\n"))
  | some file =>
    let (vals, file) ← call (scan [.unsigned 32, .space, .unsigned 32] file)
    let size := storeNum vals 1 raw.size
    let text ← loadText raw.text size.toNat 0 ⟨raw.opcode, raw.buf, file⟩
    let pcb : Pcb :=
      { pid := availPid
        priority := storeNum vals 0 raw.priority
        -- `snprintf` gets twice the size of a pointer, and one.
        path := path.take 16
        code := ⟨text, size⟩
        pc := 0
        bp := pageSize }
    return (pcb, availPid + 1)

/-! ## Program files -/

/-- How many operands an opcode has. -/
def arity : InsOpcode → ℕ
  | .calc => 0
  | .free => 1
  | .alloc | .kmalloc | .kmemCacheAlloc => 2
  | .read | .write | .kmemCacheCreate => 3
  | .copyFromUser | .copyToUser | .syscall => 4

/-- An instruction with its operands. -/
@[ext]
structure Instr where
  opcode : InsOpcode
  args : List (BitVec 64)
  length_args : args.length = arity opcode

/-- The line of an instruction. -/
def printInstr (instr : Instr) : Input :=
  opt instr.opcode ++ printNums (instr.args.map BitVec.toNat) ++ ['\n']

/-- The file of a program. -/
def printProgram (priority : BitVec 32) (prog : List Instr) : Input :=
  Nat.toDigits 10 priority.toNat ++ ' ' :: Nat.toDigits 10 prog.length ++ '\n' ::
    prog.flatMap printInstr

theorem arity_le (op : InsOpcode) : arity op ≤ 4 := by
  cases op <;> decide

/-- The instruction in an entry of `text`: its other arguments are not used. -/
def Inst.instr (inst : Inst) : Instr where
  opcode := inst.opcode
  args := [inst.arg0, inst.arg1, inst.arg2, inst.arg3].take (arity inst.opcode)
  length_args := by
    rw [List.length_take]
    exact min_eq_left (arity_le inst.opcode)

/-- `load` undoes printing: whatever the memory holds, it returns, which means that
it stays inside `opcode` and `buf`, and yields the priority, the number of
instructions and the instructions in order. -/
def LoadsBack (priority : BitVec 32) (prog : List Instr) : Prop :=
  ∀ raw availPid path, ∃ pcb availPid',
    load raw availPid path (some (printProgram priority prog)) = .ok (pcb, availPid') ∧
    pcb.priority = priority ∧ pcb.code.size.toNat = prog.length ∧ pcb.pc = 0 ∧
    pcb.code.text.map Inst.instr = prog

/-- The mnemonics that overflow `opcode`. -/
def longOpcodes : List InsOpcode :=
  [.kmemCacheCreate, .kmemCacheAlloc, .copyFromUser, .copyToUser]

/-! ## Mnemonics -/

theorem isWord_opt (op : InsOpcode) : IsWord (opt op) := by
  have hall : (opt op).all (fun c => !isSpace c) = true := by cases op <;> rfl
  refine ⟨by cases op <;> nofun, fun c hc => ?_⟩
  exact (Bool.not_eq_true' _).mp (List.all_eq_true.mp hall c hc)

theorem getOpcode_opt (op : InsOpcode) : getOpcode (opt op) = .ok op := by
  cases op <;> rfl

theorem length_opt_lt_iff (op : InsOpcode) : (opt op).length < opcodeSize ↔ op ∉ longOpcodes := by
  cases op <;> decide

/-! ## Operands -/

theorem take_storeNum {args : List (BitVec 64)} (hlen : args.length ≤ 4) (a b c d : BitVec 64) :
    [storeNum ((args.map BitVec.toNat).map .num) 0 a,
      storeNum ((args.map BitVec.toNat).map .num) 1 b,
      storeNum ((args.map BitVec.toNat).map .num) 2 c,
      storeNum ((args.map BitVec.toNat).map .num) 3 d].take args.length = args := by
  match args with
  | [] => rfl
  | [_] => simp [storeNum]
  | [_, _] => simp [storeNum]
  | [_, _, _] => simp [storeNum]
  | [_, _, _, _] => simp [storeNum]
  | _ :: _ :: _ :: _ :: _ :: _ => exact absurd hlen (by simp)

/-- Storing the operands of an instruction gives the instruction. -/
theorem instr_store {inst : Inst} {instr : Instr} (hop : inst.opcode = instr.opcode) :
    (inst.store ((instr.args.map BitVec.toNat).map .num)).instr = instr := by
  ext1
  · exact hop
  · show List.take (arity inst.opcode) _ = instr.args
    rw [hop, ← instr.length_args]
    exact take_storeNum (instr.length_args ▸ arity_le instr.opcode) _ _ _ _

/-- Apart from spaces, a format reads the operands and a space behind them. -/
theorem scan_format {op : InsOpcode} {fmt : List Directive} (h : format op = some fmt) :
    ∃ tail : List Directive, (tail = [] ∨ tail = [.space]) ∧
      ∀ cs, scan fmt cs = scan (List.replicate (arity op) (.unsigned 64) ++ tail) cs := by
  have hspace : ∀ fmt cs, scan (.space :: .unsigned 64 :: fmt) cs = scan (.unsigned 64 :: fmt) cs :=
    fun _ _ => scan_space
  cases op with
  | «calc» =>
    cases h
    exact ⟨[], .inl rfl, fun _ => rfl⟩
  | free =>
    cases h
    exact ⟨[.space], .inr rfl, fun _ => rfl⟩
  | alloc | kmalloc | kmemCacheAlloc =>
    cases h
    exact ⟨[.space], .inr rfl, scan_cons_congr _ (hspace _)⟩
  | read | write | kmemCacheCreate =>
    cases h
    refine ⟨[.space], .inr rfl, scan_cons_congr _ fun cs => ?_⟩
    rw [hspace]
    exact scan_cons_congr _ (hspace _) cs
  | copyFromUser | copyToUser | syscall => cases h

/-- What a format leaves of the line is white space. -/
theorem scan_format_line {op : InsOpcode} {fmt : List Directive} (h : format op = some fmt)
    {ns : List ℕ} (hlen : ns.length = arity op) (hns : ∀ n ∈ ns, n < 2 ^ 64) (rest : Input) :
    ∃ file, scan fmt (printNums ns ++ '\n' :: rest) = .ok (ns.map .num, file) ∧
      file.dropWhile isSpace = rest.dropWhile isSpace := by
  obtain ⟨tail, htail, hfmt⟩ := scan_format h
  have hnewline : ('\n' :: rest).dropWhile isSpace = rest.dropWhile isSpace :=
    List.dropWhile_cons_of_pos rfl
  rw [hfmt, ← hlen]
  rcases htail with rfl | rfl
  · rw [List.append_nil]
    exact ⟨'\n' :: rest, scan_printNums_nil hns rfl, hnewline⟩
  · exact ⟨rest.dropWhile isSpace, scan_printNums_space hns rfl, List.dropWhile_idempotent ..⟩

/-! ## Lines -/

/-- A character of the operands is a space or a digit. -/
theorem mem_printNums {ns : List ℕ} {c : Char} (h : c ∈ printNums ns) :
    c = ' ' ∨ c.isDigit = true := by
  obtain ⟨n, -, hc⟩ := List.mem_flatMap.mp h
  rcases List.mem_cons.mp hc with rfl | hc
  · exact .inl rfl
  · exact .inr (Nat.isDigit_of_mem_toDigits (by decide) (by decide) hc)

theorem length_printNums_le {ns : List ℕ} (hns : ∀ n ∈ ns, n < 2 ^ 64) :
    (printNums ns).length ≤ 21 * ns.length := by
  induction ns with
  | nil => exact Nat.le_refl 0
  | cons n ns ih =>
    have hn : n < 10 ^ 20 := lt_trans (hns n List.mem_cons_self) (by norm_num)
    have hdigits : (Nat.toDigits 10 n).length ≤ 20 :=
      (Nat.length_toDigits_le_iff (by decide) (by decide)).mpr hn
    have hrest := ih fun m hm => hns m (List.mem_cons_of_mem _ hm)
    rw [printNums, List.flatMap_cons, List.length_append, List.length_cons, List.length_cons]
    exact le_trans (Nat.add_le_add (Nat.succ_le_succ hdigits) hrest) (by omega)

/-- The operands that are read by line. -/
theorem scan_line {op : InsOpcode} {ns : List ℕ} (hfmt : format op = none)
    (hlen : ns.length = arity op) (hns : ∀ n ∈ ns, n < 2 ^ 64) (rest : Input) :
    fgets bufSize bufSize (printNums ns ++ '\n' :: rest) =
        .ok (some (printNums ns ++ ['\n']), rest) ∧
      ∃ rest', scan (.replicate 4 (.unsigned 64)) (cString (printNums ns ++ ['\n'])) =
        .ok (ns.map .num, rest') := by
  have hfour : arity op = 4 := by
    cases op with
    | copyFromUser | copyToUser | syscall => rfl
    | _ => cases hfmt
  have hnewline : ∀ c ∈ printNums ns, c ≠ '\n' := by
    rintro c hc rfl
    rcases mem_printNums hc with h | h
    · cases h
    · cases h
  have hnull : ∀ c ∈ printNums ns ++ ['\n'], decide (c ≠ '\x00') = true := by
    intro c hc
    rw [decide_eq_true_eq]
    rintro rfl
    rcases List.mem_append.mp hc with hc | hc
    · rcases mem_printNums hc with h | h
      · cases h
      · cases h
    · cases List.mem_singleton.mp hc
  have hshort : (printNums ns).length + 1 < bufSize := by
    have hle := length_printNums_le hns
    rw [hlen, hfour] at hle
    show _ < 200
    omega
  refine ⟨fgets_line hnewline hshort, ['\n'], ?_⟩
  rw [cString, List.takeWhile_eq_self_iff.mpr hnull, ← hfour, ← hlen]
  exact scan_printNums_nil hns rfl

/-! ## One instruction -/

variable {st : Locals} {instr : Instr} {rest : Input}

theorem printInstr_append (instr : Instr) (rest : Input) :
    printInstr instr ++ rest =
      opt instr.opcode ++ (printNums (instr.args.map BitVec.toNat) ++ '\n' :: rest) := by
  simp [printInstr]

/-- A mnemonic that is too long overflows `opcode`. -/
theorem loadInst_overflow (hfile : st.file.dropWhile isSpace = printInstr instr ++ rest)
    (hlong : instr.opcode ∈ longOpcodes) (inst : Inst) :
    loadInst st inst = .error (.undefined .overflow) := by
  obtain ⟨d, rest', hrest, hd⟩ :=
    printNums_append_eq_cons (instr.args.map BitVec.toNat) rest (show isSpace '\n' = true from rfl)
  rw [printInstr_append, hrest] at hfile
  have hlen : opcodeSize ≤ (opt instr.opcode).length := by
    rw [← Nat.not_lt, length_opt_lt_iff, not_not]
    exact hlong
  rw [loadInst, scan_overflow hfile (isWord_opt _) hd hlen]
  rfl

/-- The operands of a printed instruction. -/
theorem loadArgs_ok (instr : Instr) (buf : List Char) (rest : Input) :
    ∃ buf' file, loadArgs instr.opcode buf
        (printNums (instr.args.map BitVec.toNat) ++ '\n' :: rest) =
          .ok ((instr.args.map BitVec.toNat).map .num, buf', file) ∧
      file.dropWhile isSpace = rest.dropWhile isSpace := by
  have hns : ∀ n ∈ instr.args.map BitVec.toNat, n < 2 ^ 64 := by
    intro n hn
    obtain ⟨a, -, rfl⟩ := List.mem_map.mp hn
    exact a.isLt
  have hlen : (instr.args.map BitVec.toNat).length = arity instr.opcode := by
    rw [List.length_map, instr.length_args]
  unfold loadArgs
  cases hfmt : format instr.opcode with
  | some fmt =>
    obtain ⟨file, hscan, hfile⟩ := scan_format_line hfmt hlen hns rest
    refine ⟨buf, file, ?_, hfile⟩
    dsimp only
    rw [hscan]
    rfl
  | none =>
    obtain ⟨hgets, rest', hscan⟩ := scan_line hfmt hlen hns rest
    refine ⟨printNums (instr.args.map BitVec.toNat) ++ ['\n'], rest, ?_, rfl⟩
    dsimp only
    rw [hgets]
    show call (scan _ (cString (printNums _ ++ ['\n']))) >>= _ = _
    rw [hscan]
    rfl

/-- Any other instruction is read, with its line up to white space. -/
theorem loadInst_ok (hfile : st.file.dropWhile isSpace = printInstr instr ++ rest)
    (hshort : instr.opcode ∉ longOpcodes) (inst : Inst) :
    ∃ inst' st', loadInst st inst = .ok (inst', st') ∧ inst'.instr = instr ∧
      st'.file.dropWhile isSpace = rest.dropWhile isSpace := by
  obtain ⟨buf, file, hargs, hrest'⟩ := loadArgs_ok instr st.buf rest
  obtain ⟨d, rest', hrest, hd⟩ :=
    printNums_append_eq_cons (instr.args.map BitVec.toNat) rest (show isSpace '\n' = true from rfl)
  rw [printInstr_append, hrest] at hfile
  rw [hrest] at hargs
  have hword := scan_word hfile (isWord_opt _) hd ((length_opt_lt_iff _).mpr hshort)
  have hopcode : getOpcode (storeWord [.word (opt instr.opcode)] 0 st.opcode) = .ok instr.opcode :=
    getOpcode_opt instr.opcode
  refine ⟨{ inst with opcode := instr.opcode }.store _, ⟨opt instr.opcode, buf, file⟩, ?_,
    instr_store rfl, hrest'⟩
  rw [loadInst, hword]
  show getOpcode _ >>= _ = _
  rw [hopcode]
  show loadArgs _ _ _ >>= _ = _
  rw [hargs]
  rfl

/-! ## The whole program -/

/-- The lines of a program do not begin with white space. -/
theorem dropWhile_lines (prog : List Instr) :
    (prog.flatMap printInstr).dropWhile isSpace = prog.flatMap printInstr := by
  cases prog with
  | nil => rfl
  | cons instr prog =>
    rw [List.flatMap_cons, printInstr_append]
    exact (isWord_opt instr.opcode).dropWhile

theorem loadText_ok (text : ℕ → Inst) {prog : List Instr} (i : ℕ)
    (hfile : st.file.dropWhile isSpace = prog.flatMap printInstr)
    (hshort : ∀ instr ∈ prog, instr.opcode ∉ longOpcodes) :
    ∃ insts, loadText text prog.length i st = .ok insts ∧ insts.map Inst.instr = prog := by
  induction prog generalizing i st with
  | nil => exact ⟨[], rfl, rfl⟩
  | cons instr prog ih =>
    obtain ⟨inst, st', hinst, hinstr, hfile'⟩ :=
      loadInst_ok hfile (hshort instr List.mem_cons_self) (text i)
    obtain ⟨insts, hinsts, hprog⟩ :=
      ih (i + 1) (hfile'.trans (dropWhile_lines prog)) fun instr' hmem =>
        hshort instr' (List.mem_cons_of_mem _ hmem)
    refine ⟨inst :: insts, ?_, by rw [List.map_cons, hinstr, hprog]⟩
    rw [List.length_cons, loadText, hinst]
    show loadText text prog.length (i + 1) st' >>= _ = _
    rw [hinsts]
    rfl

/-- The first mnemonic that is too long stops the loop. -/
theorem loadText_overflow (text : ℕ → Inst) {prog : List Instr} (i : ℕ)
    (hfile : st.file.dropWhile isSpace = prog.flatMap printInstr)
    (hlong : ∃ instr ∈ prog, instr.opcode ∈ longOpcodes) :
    loadText text prog.length i st = .error (.undefined .overflow) := by
  induction prog generalizing i st with
  | nil =>
    obtain ⟨instr, hmem, -⟩ := hlong
    cases hmem
  | cons instr prog ih =>
    rw [List.length_cons, loadText]
    by_cases hop : instr.opcode ∈ longOpcodes
    · rw [loadInst_overflow hfile hop]
      rfl
    · have hrest : ∃ instr' ∈ prog, instr'.opcode ∈ longOpcodes := by
        obtain ⟨instr', hmem, hop'⟩ := hlong
        rcases List.mem_cons.mp hmem with rfl | hmem
        · exact absurd hop' hop
        · exact ⟨instr', hmem, hop'⟩
      obtain ⟨inst, st', hinst, -, hfile'⟩ := loadInst_ok hfile hop (text i)
      rw [hinst]
      show loadText text prog.length (i + 1) st' >>= _ = _
      rw [ih (i + 1) (hfile'.trans (dropWhile_lines prog)) hrest]
      rfl

theorem scan_header (priority : BitVec 32) (prog : List Instr) :
    scan [.unsigned 32, .space, .unsigned 32] (printProgram priority prog) =
      if prog.length < 2 ^ 32 then
        .ok ([.num priority.toNat, .num prog.length], '\n' :: prog.flatMap printInstr)
      else .error .range := by
  have hpriority : (printProgram priority prog).dropWhile isSpace =
      Nat.toDigits 10 priority.toNat ++
        ' ' :: (Nat.toDigits 10 prog.length ++ '\n' :: prog.flatMap printInstr) := by
    rw [printProgram, List.append_assoc]
    exact (isWord_toDigits _).dropWhile
  have hsize : (' ' :: (Nat.toDigits 10 prog.length ++ '\n' :: prog.flatMap printInstr)).dropWhile
      isSpace = Nat.toDigits 10 prog.length ++ '\n' :: prog.flatMap printInstr := by
    rw [List.dropWhile_cons_of_pos rfl]
    exact (isWord_toDigits _).dropWhile
  rw [scan_unsigned hpriority rfl priority.isLt, scan_space]
  split
  · next hlt =>
    rw [scan_unsigned hsize rfl hlt]
    rfl
  · next hge =>
    rw [scan_range hsize rfl (Nat.not_lt.mp hge)]
    rfl

/-- What `load` does with a printed program. -/
theorem load_printProgram (raw : Raw) (availPid : BitVec 32) (path : List Char)
    (priority : BitVec 32) {prog : List Instr} (hlen : prog.length < 2 ^ 32) :
    load raw availPid path (some (printProgram priority prog)) =
      (loadText raw.text prog.length 0
        ⟨raw.opcode, raw.buf, '\n' :: prog.flatMap printInstr⟩).map fun text =>
          ({ pid := availPid
             priority := priority
             path := path.take 16
             code := ⟨text, BitVec.ofNat 32 prog.length⟩
             pc := 0
             bp := pageSize }, availPid + 1) := by
  have hsize : (BitVec.ofNat 32 prog.length).toNat = prog.length := by
    rw [BitVec.toNat_ofNat, Nat.mod_eq_of_lt hlen]
  have hpriority : BitVec.ofNat 32 priority.toNat = priority := by
    rw [BitVec.ofNat_toNat, BitVec.setWidth_eq]
  unfold load
  dsimp only
  rw [scan_header, if_pos hlen]
  show loadText raw.text (BitVec.ofNat 32 prog.length).toNat 0 _ >>= _ = _
  rw [hsize]
  cases loadText raw.text prog.length 0 _ with
  | error stop => rfl
  | ok text =>
    show Except.ok (({ priority := BitVec.ofNat 32 priority.toNat, .. } : Pcb), _) = _
    rw [hpriority]
    rfl

/-- Memory that is zero. -/
def zeroRaw : Raw where
  priority := 0
  size := 0
  text _ := ⟨.calc, 0, 0, 0, 0⟩
  opcode := []
  buf := []

/-- Loading undoes printing exactly for the programs without the mnemonics that
overflow `opcode`, and with a length that fits into `size`. -/
theorem loadsBack_iff (priority : BitVec 32) (prog : List Instr) :
    LoadsBack priority prog ↔
      prog.length < 2 ^ 32 ∧ ∀ instr ∈ prog, instr.opcode ∉ longOpcodes := by
  have hstart : ('\n' :: prog.flatMap printInstr).dropWhile isSpace = prog.flatMap printInstr := by
    rw [List.dropWhile_cons_of_pos rfl, dropWhile_lines]
  constructor
  · intro h
    obtain ⟨pcb, availPid', hload, -⟩ := h zeroRaw 0 []
    have hlen : prog.length < 2 ^ 32 := by
      by_contra hge
      unfold load at hload
      dsimp only at hload
      rw [scan_header, if_neg hge] at hload
      cases hload
    refine ⟨hlen, fun instr hmem hlong => ?_⟩
    rw [load_printProgram _ _ _ _ hlen, loadText_overflow _ _ hstart ⟨instr, hmem, hlong⟩] at hload
    cases hload
  · rintro ⟨hlen, hshort⟩ raw availPid path
    let st : Locals := ⟨raw.opcode, raw.buf, '\n' :: prog.flatMap printInstr⟩
    have hfile : st.file.dropWhile isSpace = prog.flatMap printInstr := hstart
    obtain ⟨text, htext, hprog⟩ := loadText_ok raw.text 0 hfile hshort
    have hload := load_printProgram raw availPid path priority hlen
    rw [htext] at hload
    refine ⟨_, _, hload, rfl, ?_, rfl, hprog⟩
    exact (BitVec.toNat_ofNat ..).trans (Nat.mod_eq_of_lt hlen)

/-- One `kmem_cache_create`: its 18 characters do not fit into `opcode[10]`. -/
theorem load_kmemCacheCreate :
    load zeroRaw 1 [] (some (printProgram 0 [⟨.kmemCacheCreate, [64, 8, 0], rfl⟩])) =
      .error (.undefined .overflow) ∧
    ¬ LoadsBack 0 [⟨.kmemCacheCreate, [64, 8, 0], rfl⟩] := by
  have hload : ∀ availPid,
      load zeroRaw availPid [] (some (printProgram 0 [⟨.kmemCacheCreate, [64, 8, 0], rfl⟩])) =
        .error (.undefined .overflow) := by
    intro availPid
    rfl
  refine ⟨hload 1, fun h => ?_⟩
  obtain ⟨pcb, availPid', hpcb, -⟩ := h zeroRaw 1 []
  rw [hload] at hpcb
  cases hpcb

end Loader

end SimpleOs
