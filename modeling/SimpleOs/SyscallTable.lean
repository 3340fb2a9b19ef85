import SimpleOs.Lib.Scanf
import SimpleOs.SysMemmap

/-!
# The table of the system calls

`syscall.tbl` lists the system calls, one on a line. `syscalltbl.sh` makes of it the
list that `syscall.c` includes three times, for the declarations, for `sys_call_table`
and for the cases of the `switch` in `_syscall`. `read` takes a backslash for an escape.

The tables that the results are about have no null character, in which `grep` finds a
binary file, and no comment on the line of a call; their functions are called `sys_`
something, as in the documentation, which keeps them away from the names of the
compiler.

Results:
1. `compile_syscalltbl`, for any table: it compiles exactly if no two calls have the
   same number, and then `_syscall` gets to the handler in the table, or to
   `__sys_ni_syscall`, and `listsyscall` prints the calls in the order of their numbers.
2. `syscall_eq_handler`: for the table of this system, `_syscall` is the function that
   the processes call in `Cpu`.
-/

namespace SimpleOs

namespace Syscall

open Scanf

/-! ## The script -/

/-- What `read` splits a line at. -/
def isBlank (c : Char) : Bool :=
  c = ' ' || c = '\t'

/-- `grep -E "^[0-9]+[[:space:]]+"`. -/
def isEntry (line : List Char) : Bool :=
  match line.takeWhile Char.isDigit, line.dropWhile Char.isDigit with
  | _ :: _, c :: _ => isSpace c
  | _, _ => false

/-- The number that `sort -n` takes a line for. -/
def lineNumber (line : List Char) : ℕ :=
  Nat.ofDigitChars 10 (line.takeWhile Char.isDigit) 0

/-- The order of `sort -n`, that of the characters where the numbers are the same. -/
def lineLe (line₁ line₂ : List Char) : Bool :=
  toLex (lineNumber line₁, line₁) ≤ toLex (lineNumber line₂, line₂)

/-- A character that a backslash in front of it has made an ordinary one is marked. The
flag says that the line goes on in the next one: a backslash is its last character. -/
def unescape : List Char → List (Char × Bool) × Bool
  | [] => ([], false)
  | ['\\'] => ([], true)
  | '\\' :: c :: cs => ((c, true) :: (unescape cs).1, (unescape cs).2)
  | c :: cs => ((c, false) :: (unescape cs).1, (unescape cs).2)

/-- What the rounds of `while read` get of the lines. The last one does not go on, or
`read` fails at it. -/
def readLines : List (List Char) → List (List (Char × Bool))
  | [] => []
  | line :: lines =>
    match unescape line, readLines lines with
    | (cs, false), rest => cs :: rest
    | (cs, true), next :: rest => (cs ++ next) :: rest
    | (_, true), [] => []

/-- `read` splits a line here. -/
def isSplit (c : Char × Bool) : Bool :=
  isBlank c.1 && !c.2

/-- `read nr name native`: `$nr` and `$native`, which gets what is left of the line. -/
def readFields (line : List (Char × Bool)) : List Char × List Char :=
  let line := line.dropWhile isSplit
  let nr := line.takeWhile fun c => !isSplit c
  let line := (line.dropWhile fun c => !isSplit c).dropWhile isSplit
  let native := (line.dropWhile fun c => !isSplit c).dropWhile isSplit
  (nr.map Prod.fst, (native.rdropWhile isSplit).map Prod.fst)

/-- The arguments of the `__SYSCALL` that a round of the loop prints. -/
def syscallArgs (line : List (Char × Bool)) : Option (List Char × List Char) :=
  let (nr, native) := readFields line
  if native = [] then none else some (nr, native)

/-- `syscalltbl.sh`. -/
def syscalltbl (infile : List Char) : List (List Char × List Char) :=
  (readLines (((infile.splitOn '\n').filter isEntry).mergeSort lineLe)).filterMap syscallArgs

/-! ## The compiler -/

/-- The value of a constant, which is octal if it starts with 0. -/
def intConstant (s : List Char) : Option ℕ :=
  if s = [] ∨ s.all Char.isDigit = false then none
  else
    match s with
    | '0' :: digits =>
      if digits.all fun c => c < '8' then some (Nat.ofDigitChars 8 digits 0) else none
    | digits => some (Nat.ofDigitChars 10 digits 0)

def isIdentChar (c : Char) : Bool :=
  c.isAlphanum || c = '_'

/-- `__sys_ni_syscall` and `__mm_swap_page`, without `__`: `syscall.h` declares them with
other arguments. -/
def declared : List (List Char) :=
  [['s', 'y', 's', '_', 'n', 'i', '_', 's', 'y', 's', 'c', 'a', 'l', 'l'],
    ['m', 'm', '_', 's', 'w', 'a', 'p', '_', 'p', 'a', 'g', 'e']]

/-- `case nr: return __##sym(krnl,pid,regs);`, with the label as `_syscall` compares it,
if the declaration of the function goes through. -/
def caseOf (args : List Char × List Char) : Option (BitVec 32 × List Char) :=
  if args.2.all isIdentChar ∧ args.2 ∉ declared then
    (intConstant args.1).map fun n => (BitVec.ofNat 32 n, args.2)
  else none

/-- What `syscall.c` is compiled to. -/
structure Table where
  /-- The labels of the `switch` with the functions behind them, without `__`. -/
  cases : List (BitVec 32 × List Char)
  sysCallTable : List (List Char)
  /-- A label is used once. -/
  nodup : (cases.map Prod.fst).Nodup

/-- `syscall.c` with a list included, if it compiles. -/
def compile (lst : List (List Char × List Char)) : Option Table := do
  let cases ← lst.mapM caseOf
  if h : (cases.map Prod.fst).Nodup then
    return { cases, sysCallTable := lst.map fun args => args.1 ++ '-' :: args.2, nodup := h }
  else none

/-- The function that `_syscall` calls, or `none` for `__sys_ni_syscall`. -/
def Table.handler (table : Table) (nr : BitVec 32) : Option (List Char) :=
  (table.cases.find? fun c => c.1 = nr).map Prod.snd

/-- What `__sys_listsyscall` prints. -/
def Table.listsyscall (table : Table) : List Char :=
  table.sysCallTable.flatMap fun s => s ++ ['\n']

/-! ## Tables -/

/-- A line with a system call, with the blanks between its fields and behind them. -/
structure Entry where
  nr : ℕ
  name : List Char
  sym : List Char
  gap₁ : List Char
  gap₂ : List Char
  trail : List Char
  deriving DecidableEq

/-- A line of a table: a call, or a note that `grep` drops. -/
inductive Row
  | note (text : List Char)
  | call (entry : Entry)
  deriving DecidableEq

def Entry.line (entry : Entry) : List Char :=
  Nat.toDigits 10 entry.nr ++ (entry.gap₁ ++ (entry.name ++
    (entry.gap₂ ++ (entry.sym ++ entry.trail))))

def Row.line : Row → List Char
  | .note text => text
  | .call entry => entry.line

def Row.entry : Row → Option Entry
  | .note _ => none
  | .call entry => some entry

/-- `sys_`. -/
def symPrefix : List Char :=
  ['s', 'y', 's', '_']

/-- A character of a name: it does not end it, and `read` and `grep` do nothing special
about it. -/
def isNameChar (c : Char) : Bool :=
  !isBlank c && c ≠ '\n' && c ≠ '\\' && c ≠ '\x00'

/-- The number is a `uint32_t`, the fields are words, the last one names a function that
`syscall.h` does not declare, and there are blanks between them. -/
structure Entry.Valid (entry : Entry) : Prop where
  nr : entry.nr < 2 ^ 32
  name : entry.name ≠ [] ∧ ∀ c ∈ entry.name, isNameChar c = true
  sym : symPrefix <+: entry.sym ∧ ∀ c ∈ entry.sym, isIdentChar c = true
  undeclared : entry.sym ∉ declared
  gap₁ : entry.gap₁ ≠ [] ∧ ∀ c ∈ entry.gap₁, isBlank c = true
  gap₂ : entry.gap₂ ≠ [] ∧ ∀ c ∈ entry.gap₂, isBlank c = true
  trail : ∀ c ∈ entry.trail, isBlank c = true

/-- A note is on one line and does not look like a call. -/
def Row.Valid : Row → Prop
  | .note text => '\n' ∉ text ∧ '\x00' ∉ text ∧ isEntry text = false
  | .call entry => entry.Valid

/-- The file. -/
def printRows (rows : List Row) : List Char :=
  rows.flatMap fun row => row.line ++ ['\n']

/-- The calls of a table. -/
def entries (rows : List Row) : List Entry :=
  rows.filterMap Row.entry

/-! ## Lines -/

section Lines

variable {α : Type} {c : Char} {p : α → Bool} {s gap rest : List α} {line : List Char}
  {lines : List (List Char)} {entry : Entry}

theorem isBlank_of_isDigit (h : c.isDigit = true) : isBlank c = false := by
  have hspace := not_isSpace_of_isDigit h
  by_contra hblank
  rw [Bool.not_eq_false, isBlank, Bool.or_eq_true, decide_eq_true_eq, decide_eq_true_eq] at hblank
  rcases hblank with rfl | rfl
  all_goals cases hspace

theorem isBlank_of_isIdentChar (h : isIdentChar c = true) : isBlank c = false := by
  by_contra hblank
  rw [Bool.not_eq_false, isBlank, Bool.or_eq_true, decide_eq_true_eq, decide_eq_true_eq] at hblank
  rcases hblank with rfl | rfl
  all_goals exact absurd h (by decide)

theorem isBlank_of_isNameChar (h : isNameChar c = true) : isBlank c = false := by
  simp only [isNameChar, Bool.and_eq_true, Bool.not_eq_true'] at h
  exact h.1.1.1

theorem isSpace_of_isBlank (h : isBlank c = true) : isSpace c = true := by
  rw [isBlank, Bool.or_eq_true, decide_eq_true_eq, decide_eq_true_eq] at h
  rcases h with rfl | rfl
  all_goals rfl

/-- A run of one class up to a character of the other. -/
theorem takeWhile_run (hs : ∀ d ∈ s, p d = true) (hne : gap ≠ [])
    (hgap : ∀ d ∈ gap, p d = false) : (s ++ (gap ++ rest)).takeWhile p = s := by
  obtain ⟨d, ds, rfl⟩ := List.exists_cons_of_ne_nil hne
  exact takeWhile_append_cons hs (hgap d List.mem_cons_self)

theorem dropWhile_run (hs : ∀ d ∈ s, p d = true) (hne : gap ≠ [])
    (hgap : ∀ d ∈ gap, p d = false) : (s ++ (gap ++ rest)).dropWhile p = gap ++ rest := by
  obtain ⟨d, ds, rfl⟩ := List.exists_cons_of_ne_nil hne
  exact dropWhile_append_cons hs (hgap d List.mem_cons_self)

/-- A line without a backslash, as `read` takes it. -/
def plain (line : List Char) : List (Char × Bool) :=
  line.map fun c => (c, false)

theorem map_fst_plain (line : List Char) : (plain line).map Prod.fst = line := by
  unfold plain
  rw [List.map_map]
  exact List.map_id line

theorem plain_append (line line' : List Char) : plain (line ++ line') = plain line ++ plain line' :=
  List.map_append

theorem isSplit_plain {b : Bool} (h : ∀ c ∈ line, isBlank c = b) :
    ∀ d ∈ plain line, isSplit d = b := by
  intro d hd
  obtain ⟨c, hc, rfl⟩ := List.mem_map.mp hd
  rw [← h c hc]
  exact Bool.and_true _

theorem unescape_plain (h : '\\' ∉ line) : unescape line = (plain line, false) := by
  induction line with
  | nil => rfl
  | cons c cs ih =>
    obtain ⟨hc, hcs⟩ := not_or.mp (mt List.mem_cons.mpr h)
    rw [unescape, ih hcs]
    · rfl
    · exact fun hc' _ => hc hc'.symm
    · exact fun _ _ hc' _ => hc hc'.symm

theorem readLines_plain (h : ∀ line ∈ lines, '\\' ∉ line) :
    readLines lines = lines.map plain := by
  induction lines with
  | nil => rfl
  | cons line lines ih =>
    obtain ⟨hline, hlines⟩ := List.forall_mem_cons.mp h
    rw [readLines, unescape_plain hline, ih hlines]
    rfl

theorem isDigit_toDigits {n : ℕ} : ∀ d ∈ Nat.toDigits 10 n, d.isDigit = true := fun _ hd =>
  Nat.isDigit_of_mem_toDigits (by decide) (by decide) hd

section Valid

variable (h : entry.Valid)
include h

/-- The blanks behind the number are no digits. -/
theorem Entry.Valid.gap_not_isDigit : ∀ d ∈ entry.gap₁, d.isDigit = false := by
  intro d hd
  by_contra hdigit
  rw [Bool.not_eq_false] at hdigit
  exact absurd (h.gap₁.2 d hd) (by rw [isBlank_of_isDigit hdigit]; exact Bool.false_ne_true)

theorem Entry.Valid.sym_ne_nil : entry.sym ≠ [] := by
  intro hnil
  have hprefix := h.sym.1
  rw [hnil, List.prefix_nil] at hprefix
  cases hprefix

theorem Entry.Valid.isEntry_line : isEntry entry.line = true := by
  obtain ⟨d, ds, hdigits⟩ : ∃ d ds, Nat.toDigits 10 entry.nr = d :: ds :=
    List.exists_cons_of_ne_nil Nat.toDigits_ne_nil
  obtain ⟨g, gs, hgap⟩ := List.exists_cons_of_ne_nil h.gap₁.1
  unfold isEntry Entry.line
  rw [takeWhile_run isDigit_toDigits h.gap₁.1 h.gap_not_isDigit,
    dropWhile_run isDigit_toDigits h.gap₁.1 h.gap_not_isDigit, hdigits, hgap]
  exact isSpace_of_isBlank (h.gap₁.2 g (hgap ▸ List.mem_cons_self))

theorem Entry.Valid.lineNumber_line : lineNumber entry.line = entry.nr := by
  unfold lineNumber Entry.line
  rw [takeWhile_run isDigit_toDigits h.gap₁.1 h.gap_not_isDigit, Nat.ofDigitChars_ten_toDigits]

/-- The fields are read back. -/
theorem Entry.Valid.readFields_line :
    readFields (plain entry.line) = (Nat.toDigits 10 entry.nr, entry.sym) := by
  have hnr : ∀ d ∈ plain (Nat.toDigits 10 entry.nr), isSplit d = false :=
    isSplit_plain fun c hc => isBlank_of_isDigit (isDigit_toDigits c hc)
  have hname : ∀ d ∈ plain entry.name, isSplit d = false :=
    isSplit_plain fun c hc => isBlank_of_isNameChar (h.name.2 c hc)
  have hsym : ∀ d ∈ plain entry.sym, isSplit d = false :=
    isSplit_plain fun c hc => isBlank_of_isIdentChar (h.sym.2 c hc)
  have hgap₁ := isSplit_plain h.gap₁.2
  have hgap₂ := isSplit_plain h.gap₂.2
  have hne : ∀ {line : List Char}, line ≠ [] → plain line ≠ [] := fun hne =>
    List.map_eq_nil_iff.not.mpr hne
  have hnot : ∀ {b : Bool} {line : List (Char × Bool)}, (∀ d ∈ line, isSplit d = b) →
      ∀ d ∈ line, (!isSplit d) = !b := fun hall d hd => congrArg _ (hall d hd)
  have hline : (plain entry.line).dropWhile isSplit = plain entry.line := by
    unfold Entry.line
    rw [plain_append]
    exact @dropWhile_run _ isSplit [] _ _ (by simp) (hne Nat.toDigits_ne_nil) hnr
  have htrail : (plain entry.sym ++ plain entry.trail).rdropWhile isSplit = plain entry.sym := by
    have hrun := @dropWhile_run _ isSplit (plain entry.trail).reverse (plain entry.sym).reverse []
      (fun d hd => isSplit_plain h.trail d (List.mem_reverse.mp hd))
      (by simpa using hne h.sym_ne_nil) (fun d hd => hsym d (List.mem_reverse.mp hd))
    unfold List.rdropWhile
    rw [List.reverse_append, ← List.append_nil (plain entry.sym).reverse, hrun, List.append_nil,
      List.reverse_reverse]
  unfold readFields
  rw [hline]
  unfold Entry.line
  simp only [plain_append]
  rw [takeWhile_run (hnot hnr) (hne h.gap₁.1) (hnot hgap₁),
    dropWhile_run (hnot hnr) (hne h.gap₁.1) (hnot hgap₁),
    dropWhile_run hgap₁ (hne h.name.1) hname,
    dropWhile_run (hnot hname) (hne h.gap₂.1) (hnot hgap₂),
    dropWhile_run hgap₂ (hne h.sym_ne_nil) hsym, htrail, map_fst_plain, map_fst_plain]

theorem Entry.Valid.syscallArgs_line :
    syscallArgs (plain entry.line) = some (Nat.toDigits 10 entry.nr, entry.sym) := by
  unfold syscallArgs
  rw [h.readFields_line]
  exact if_neg h.sym_ne_nil

/-- What a line of a call is made of. -/
theorem Entry.Valid.of_mem_line (hc : c ∈ entry.line) :
    c.isDigit = true ∨ isBlank c = true ∨ isNameChar c = true ∨ isIdentChar c = true := by
  unfold Entry.line at hc
  simp only [List.mem_append] at hc
  rcases hc with hc | hc | hc | hc | hc | hc
  · exact .inl (isDigit_toDigits c hc)
  · exact .inr (.inl (h.gap₁.2 c hc))
  · exact .inr (.inr (.inl (h.name.2 c hc)))
  · exact .inr (.inl (h.gap₂.2 c hc))
  · exact .inr (.inr (.inr (h.sym.2 c hc)))
  · exact .inr (.inl (h.trail c hc))

/-- It is one line, and no escape is in it. -/
theorem Entry.Valid.not_mem_line : '\n' ∉ entry.line ∧ '\\' ∉ entry.line :=
  ⟨fun hc => absurd (h.of_mem_line hc) (by decide),
    fun hc => absurd (h.of_mem_line hc) (by decide)⟩

end Valid

end Lines

/-! ## Files -/

section Files

variable {rows : List Row} (hv : ∀ row ∈ rows, row.Valid)
include hv

theorem valid_of_mem_entries : ∀ entry ∈ entries rows, entry.Valid := by
  intro entry hmem
  obtain ⟨row, hrow, hentry⟩ := List.mem_filterMap.mp hmem
  cases row with
  | note text => cases hentry
  | call entry' =>
    cases hentry
    exact hv _ hrow

/-- The file has a line for each row, and an empty one behind the last newline. -/
theorem splitOn_printRows : (printRows rows).splitOn '\n' = rows.map Row.line ++ [[]] := by
  induction rows with
  | nil => rfl
  | cons row rows ih =>
    obtain ⟨hrow, hrows⟩ := List.forall_mem_cons.mp hv
    have hline : '\n' ∉ row.line := by
      cases row with
      | note text => exact hrow.1
      | call entry => exact hrow.not_mem_line.1
    have hcons : printRows (row :: rows) = row.line ++ '\n' :: printRows rows := by
      unfold printRows
      rw [List.flatMap_cons, List.append_assoc]
      rfl
    rw [hcons, List.splitOn_append_cons_self_of_not_mem hline, ih hrows]
    rfl

theorem filter_lines : (rows.map Row.line).filter isEntry = (entries rows).map Entry.line := by
  induction rows with
  | nil => rfl
  | cons row rows ih =>
    obtain ⟨hrow, hrows⟩ := List.forall_mem_cons.mp hv
    rw [List.map_cons, List.filter_cons, ih hrows]
    cases row with
    | note text =>
      have hnote : isEntry (Row.note text).line = false := hrow.2.2
      exact if_neg (by simp [hnote])
    | call entry => exact if_pos hrow.isEntry_line

/-- The script takes the calls out of a table and sorts them. -/
theorem syscalltbl_printRows :
    syscalltbl (printRows rows) =
      ((entries rows).mergeSort fun a b => lineLe a.line b.line).map fun entry =>
        (Nat.toDigits 10 entry.nr, entry.sym) := by
  have hsort : (((entries rows).map Entry.line).mergeSort lineLe) =
      ((entries rows).mergeSort fun a b => lineLe a.line b.line).map Entry.line :=
    (@List.map_mergeSort _ _ (fun a b => lineLe a.line b.line) lineLe Entry.line (entries rows)
      fun _ _ _ _ => rfl).symm
  have hempty : ([[]] : List (List Char)).filter isEntry = [] := rfl
  have hvalid : ∀ entry ∈ (entries rows).mergeSort fun a b => lineLe a.line b.line, entry.Valid :=
    fun entry hmem => valid_of_mem_entries hv entry ((List.mergeSort_perm _ _).mem_iff.mp hmem)
  have hplain : ∀ line ∈ ((entries rows).mergeSort fun a b => lineLe a.line b.line).map Entry.line,
      '\\' ∉ line := by
    intro line hmem
    obtain ⟨entry, hentry, rfl⟩ := List.mem_map.mp hmem
    exact (hvalid entry hentry).not_mem_line.2
  unfold syscalltbl
  rw [splitOn_printRows hv, List.filter_append, filter_lines hv, hempty, List.append_nil, hsort,
    readLines_plain hplain, List.filterMap_map, List.filterMap_map,
    List.filterMap_eq_map_iff_forall_eq_some]
  intro entry hmem
  rw [Function.comp_apply, Function.comp_apply]
  exact (hvalid entry hmem).syscallArgs_line

end Files

/-! ## Labels -/

/-- A printed number does not start with 0, unless it is 0. -/
theorem eq_zero_of_toDigits {n : ℕ} {ds : List Char} (h : Nat.toDigits 10 n = '0' :: ds) :
    n = 0 := by
  induction n using Nat.strong_induction_on generalizing ds with
  | _ n ih =>
    rcases Nat.lt_or_ge n 10 with hlt | hge
    · rw [Nat.toDigits_of_lt_base hlt] at h
      exact Nat.digitChar_eq_zero.mp (List.cons.inj h).1
    · rw [Nat.toDigits_of_base_le (by decide) hge] at h
      obtain ⟨d, ds', hdigits⟩ : ∃ d ds', Nat.toDigits 10 (n / 10) = d :: ds' :=
        List.exists_cons_of_ne_nil Nat.toDigits_ne_nil
      rw [hdigits, List.cons_append] at h
      obtain ⟨rfl, -⟩ := List.cons.inj h
      have hzero := ih (n / 10) (by omega) hdigits
      omega

theorem intConstant_toDigits (n : ℕ) : intConstant (Nat.toDigits 10 n) = some n := by
  have hdigit : (Nat.toDigits 10 n).all Char.isDigit = true :=
    List.all_eq_true.mpr isDigit_toDigits
  unfold intConstant
  rw [if_neg (by rw [hdigit]; simp [Nat.toDigits_ne_nil])]
  split
  · next ds hdigits =>
    obtain rfl := eq_zero_of_toDigits hdigits
    cases hdigits
    rfl
  · rw [Nat.ofDigitChars_ten_toDigits]

theorem Entry.Valid.caseOf_eq {entry : Entry} (h : entry.Valid) :
    caseOf (Nat.toDigits 10 entry.nr, entry.sym) = some (BitVec.ofNat 32 entry.nr, entry.sym) := by
  unfold caseOf
  rw [if_pos ⟨List.all_eq_true.mpr h.sym.2, h.undeclared⟩, intConstant_toDigits]
  rfl

theorem mapM_caseOf {es : List Entry} (h : ∀ entry ∈ es, entry.Valid) :
    (es.map fun entry => (Nat.toDigits 10 entry.nr, entry.sym)).mapM caseOf =
      some (es.map fun entry => (BitVec.ofNat 32 entry.nr, entry.sym)) := by
  induction es with
  | nil => rfl
  | cons entry es ih =>
    obtain ⟨hentry, hes⟩ := List.forall_mem_cons.mp h
    rw [List.map_cons, List.mapM_cons, hentry.caseOf_eq, ih hes]
    rfl

/-- Numbers of 32 bits are different labels. -/
theorem nodup_labels_iff {es : List Entry} (h : ∀ entry ∈ es, entry.Valid) :
    (es.map fun entry => BitVec.ofNat 32 entry.nr).Nodup ↔ (es.map Entry.nr).Nodup := by
  have hmap : (es.map fun entry => BitVec.ofNat 32 entry.nr) =
      (es.map Entry.nr).map (BitVec.ofNat 32) := by
    rw [List.map_map]
    rfl
  rw [hmap]
  refine ⟨List.Nodup.of_map _, fun hnodup => hnodup.map_on fun n hn k hk heq => ?_⟩
  obtain ⟨a, ha, rfl⟩ := List.mem_map.mp hn
  obtain ⟨b, hb, rfl⟩ := List.mem_map.mp hk
  have hnat := congrArg BitVec.toNat heq
  rwa [BitVec.toNat_ofNat, BitVec.toNat_ofNat, Nat.mod_eq_of_lt (h a ha).nr,
    Nat.mod_eq_of_lt (h b hb).nr] at hnat

/-! ## The switch -/

theorem compile_eq_some {lst : List (List Char × List Char)} {table : Table}
    (h : compile lst = some table) :
    lst.mapM caseOf = some table.cases ∧
      table.sysCallTable = lst.map fun args => args.1 ++ '-' :: args.2 := by
  unfold compile at h
  obtain ⟨cases, hcases, h⟩ := Option.bind_eq_some_iff.mp h
  split at h
  · cases h
    exact ⟨hcases, rfl⟩
  · cases h

/-- The list compiles if no label is used twice. -/
theorem compile_isSome_iff {lst : List (List Char × List Char)}
    {cases : List (BitVec 32 × List Char)} (h : lst.mapM caseOf = some cases) :
    (compile lst).isSome = true ↔ (cases.map Prod.fst).Nodup := by
  unfold compile
  rw [h]
  show (Option.isSome (dite _ _ _)) = true ↔ _
  split
  · next hnodup => exact iff_of_true rfl hnodup
  · next hnodup => exact iff_of_false Bool.false_ne_true hnodup

/-- `_syscall` gets to a function exactly if the list has it behind the number. -/
theorem Table.handler_eq_some_iff (table : Table) (nr : BitVec 32) (sym : List Char) :
    table.handler nr = some sym ↔ (nr, sym) ∈ table.cases := by
  unfold Table.handler
  rw [Option.map_eq_some_iff]
  constructor
  · rintro ⟨c, hfind, rfl⟩
    have hlabel : c.1 = nr := by simpa using List.find?_some hfind
    exact hlabel ▸ List.mem_of_find?_eq_some hfind
  · intro hmem
    cases hfind : table.cases.find? fun c => c.1 = nr with
    | none => exact absurd hmem fun hmem => by simpa using List.find?_eq_none.mp hfind _ hmem
    | some c =>
      have hlabel : c.1 = nr := by simpa using List.find?_some hfind
      have hfound := List.mem_of_find?_eq_some hfind
      have hsame := List.inj_on_of_nodup_map table.nodup hfound hmem hlabel
      exact ⟨c, rfl, congrArg Prod.snd hsame⟩

/-- Sorted lines with different numbers have them in increasing order. -/
theorem pairwise_lt_nr {es : List Entry} (h : ∀ entry ∈ es, entry.Valid)
    (hnodup : (es.map Entry.nr).Nodup) :
    (es.mergeSort fun a b => lineLe a.line b.line).Pairwise fun a b => a.nr < b.nr := by
  have hperm := List.mergeSort_perm es fun a b => lineLe a.line b.line
  have hsorted : (es.mergeSort fun a b => lineLe a.line b.line).Pairwise
      fun a b => lineLe a.line b.line = true := by
    refine List.pairwise_mergeSort (fun a b c hab hbc => ?_) (fun a b => ?_) es
    · simp only [lineLe, decide_eq_true_eq] at hab hbc ⊢
      exact hab.trans hbc
    · simp only [lineLe, Bool.or_eq_true, decide_eq_true_eq]
      exact le_total _ _
  have hne := List.pairwise_map.mp ((hperm.map Entry.nr).nodup_iff.mpr hnodup)
  refine (hsorted.and hne).imp_of_mem fun {a b} ha hb hab => ?_
  obtain ⟨hle, hne⟩ := hab
  have hle : toLex (lineNumber a.line, a.line) ≤ toLex (lineNumber b.line, b.line) := by
    simpa only [lineLe, decide_eq_true_eq] using hle
  rw [(h a (hperm.mem_iff.mp ha)).lineNumber_line, (h b (hperm.mem_iff.mp hb)).lineNumber_line,
    Prod.Lex.toLex_le_toLex] at hle
  rcases hle with hlt | ⟨heq, -⟩
  · exact hlt
  · exact absurd heq hne

/-! ## From the table to the calls -/

section Rows

variable {rows : List Row} (hv : ∀ row ∈ rows, row.Valid)
include hv

theorem mapM_syscalltbl :
    ∃ sorted : List Entry, sorted.Perm (entries rows) ∧
      syscalltbl (printRows rows) =
        sorted.map (fun entry => (Nat.toDigits 10 entry.nr, entry.sym)) ∧
      (syscalltbl (printRows rows)).mapM caseOf =
        some (sorted.map fun entry => (BitVec.ofNat 32 entry.nr, entry.sym)) ∧
      (((entries rows).map Entry.nr).Nodup → sorted.Pairwise fun a b => a.nr < b.nr) := by
  have hperm := List.mergeSort_perm (entries rows) fun a b => lineLe a.line b.line
  have hlst := syscalltbl_printRows hv
  refine ⟨_, hperm, hlst, ?_, pairwise_lt_nr (valid_of_mem_entries hv)⟩
  rw [hlst]
  exact mapM_caseOf fun entry hmem => valid_of_mem_entries hv entry (hperm.mem_iff.mp hmem)

theorem nodup_labels {sorted : List Entry} (hperm : sorted.Perm (entries rows)) :
    ((sorted.map fun entry => (BitVec.ofNat 32 entry.nr, entry.sym)).map Prod.fst).Nodup ↔
      ((entries rows).map Entry.nr).Nodup := by
  rw [List.map_map]
  have hvalid : ∀ entry ∈ sorted, entry.Valid := fun entry hmem =>
    valid_of_mem_entries hv entry (hperm.mem_iff.mp hmem)
  exact (nodup_labels_iff hvalid).trans (hperm.map Entry.nr).nodup_iff

theorem isSome_compile :
    (compile (syscalltbl (printRows rows))).isSome = true ↔
      ((entries rows).map Entry.nr).Nodup := by
  obtain ⟨sorted, hperm, -, hcases, -⟩ := mapM_syscalltbl hv
  exact (compile_isSome_iff hcases).trans (nodup_labels hv hperm)

variable {table : Table} (htable : compile (syscalltbl (printRows rows)) = some table)
include htable

theorem handler_eq_some_iff_entry (nr : BitVec 32) (sym : List Char) :
    table.handler nr = some sym ↔
      ∃ entry ∈ entries rows, entry.nr = nr.toNat ∧ entry.sym = sym := by
  obtain ⟨sorted, hperm, -, hcases, -⟩ := mapM_syscalltbl hv
  obtain heq := Option.some.inj ((compile_eq_some htable).1.symm.trans hcases)
  rw [table.handler_eq_some_iff, heq, List.mem_map]
  constructor
  · rintro ⟨entry, hmem, hentry⟩
    cases hentry
    have hmem := hperm.mem_iff.mp hmem
    refine ⟨entry, hmem, ?_, rfl⟩
    rw [BitVec.toNat_ofNat, Nat.mod_eq_of_lt (valid_of_mem_entries hv entry hmem).nr]
  · rintro ⟨entry, hmem, hnr, rfl⟩
    refine ⟨entry, hperm.mem_iff.mpr hmem, ?_⟩
    rw [hnr, BitVec.ofNat_toNat, BitVec.setWidth_eq]

theorem listsyscall_eq :
    ∃ sorted : List Entry, sorted.Perm (entries rows) ∧
      sorted.Pairwise (fun a b => a.nr < b.nr) ∧
      table.listsyscall =
        sorted.flatMap fun entry => Nat.toDigits 10 entry.nr ++ '-' :: entry.sym ++ ['\n'] := by
  obtain ⟨sorted, hperm, hlst, hcases, hincreasing⟩ := mapM_syscalltbl hv
  obtain ⟨hcases', hprinted⟩ := compile_eq_some htable
  obtain heq := Option.some.inj (hcases'.symm.trans hcases)
  have hnodup := (nodup_labels hv hperm).mp (heq ▸ table.nodup)
  refine ⟨sorted, hperm, hincreasing hnodup, ?_⟩
  unfold Table.listsyscall
  rw [hprinted, hlst, List.map_map, List.flatMap_map]
  rfl

end Rows

/-- Whatever the order of the rows, the notes between them and the blanks in them. -/
theorem compile_syscalltbl {rows : List Row} (hv : ∀ row ∈ rows, row.Valid) :
    ((compile (syscalltbl (printRows rows))).isSome = true ↔
      ((entries rows).map Entry.nr).Nodup) ∧
    ∀ table, compile (syscalltbl (printRows rows)) = some table →
      (∀ nr sym, table.handler nr = some sym ↔
        ∃ entry ∈ entries rows, entry.nr = nr.toNat ∧ entry.sym = sym) ∧
      ∃ sorted : List Entry, sorted.Perm (entries rows) ∧
        sorted.Pairwise (fun a b => a.nr < b.nr) ∧
        table.listsyscall =
          sorted.flatMap fun entry => Nat.toDigits 10 entry.nr ++ '-' :: entry.sym ++ ['\n'] :=
  ⟨isSome_compile hv, fun _ htable =>
    ⟨handler_eq_some_iff_entry hv htable, listsyscall_eq hv htable⟩⟩

/-! ## The calls of this system -/

/-- The first call of `syscall.tbl`. -/
def listsyscallEntry : Entry where
  nr := 0
  name := ['l', 'i', 's', 't', 's', 'y', 's', 'c', 'a', 'l', 'l']
  sym := ['s', 'y', 's', '_', 'l', 'i', 's', 't', 's', 'y', 's', 'c', 'a', 'l', 'l']
  gap₁ := [' ', ' ', ' ', ' ', ' ', ' ', ' ']
  gap₂ := [' ']
  trail := []

/-- The second one. -/
def memmapEntry : Entry where
  nr := 17
  name := ['m', 'e', 'm', 'm', 'a', 'p']
  sym := ['s', 'y', 's', '_', 'm', 'e', 'm', 'm', 'a', 'p']
  gap₁ := [' ', ' ', ' ', ' ', ' ', ' ']
  gap₂ := ['\t', ' ', ' ', ' ', ' ']
  trail := []

/-- With these two calls `_syscall` does what `SysMemmap.syscall` does. -/
theorem syscall_eq_handler {rows : List Row} (hv : ∀ row ∈ rows, row.Valid)
    (hentries : entries rows = [listsyscallEntry, memmapEntry]) {table : Table}
    (htable : compile (syscalltbl (printRows rows)) = some table) (raw : SysMemmap.Raw)
    (devs : SysMemmap.Devs) (nr : BitVec 32) (regs : SysMemmap.ScRegs) :
    SysMemmap.syscall raw devs nr regs =
      if table.handler nr = some memmapEntry.sym then SysMemmap.sysMemmap raw devs regs
      else .ok (0, regs, devs) := by
  have hiff : table.handler nr = some memmapEntry.sym ↔ nr = 17 := by
    rw [handler_eq_some_iff_entry hv htable, hentries]
    constructor
    · rintro ⟨entry, hmem, hnr, hsym⟩
      rcases List.mem_cons.mp hmem with rfl | hmem
      · exact absurd hsym (by decide)
      · obtain rfl := List.mem_singleton.mp hmem
        exact BitVec.eq_of_toNat_eq hnr.symm
    · rintro rfl
      exact ⟨memmapEntry, List.mem_cons_of_mem _ List.mem_cons_self, rfl, rfl⟩
  unfold SysMemmap.syscall
  exact if_congr hiff.symm rfl rfl

/-- The call that the documentation adds. -/
def xxxEntry : Entry where
  nr := 440
  name := ['x', 'x', 'x']
  sym := ['s', 'y', 's', '_', 'x', 'x', 'x', 'h', 'a', 'n', 'd', 'l', 'e', 'r']
  gap₁ := [' ']
  gap₂ := [' ']
  trail := []

/-- It stands in front of the others here. -/
def withXxx : List Row :=
  [.call xxxEntry, .note ['#', ' ', 'c', 'a', 'l', 'l', 's'], .call listsyscallEntry,
    .call memmapEntry]

theorem listsyscallEntry_valid : listsyscallEntry.Valid where
  nr := by decide
  name := ⟨List.cons_ne_nil _ _, List.all_eq_true.mp rfl⟩
  sym := ⟨by decide, List.all_eq_true.mp rfl⟩
  undeclared := by decide
  gap₁ := ⟨List.cons_ne_nil _ _, List.all_eq_true.mp rfl⟩
  gap₂ := ⟨List.cons_ne_nil _ _, List.all_eq_true.mp rfl⟩
  trail := List.all_eq_true.mp rfl

theorem memmapEntry_valid : memmapEntry.Valid where
  nr := by decide
  name := ⟨List.cons_ne_nil _ _, List.all_eq_true.mp rfl⟩
  sym := ⟨by decide, List.all_eq_true.mp rfl⟩
  undeclared := by decide
  gap₁ := ⟨List.cons_ne_nil _ _, List.all_eq_true.mp rfl⟩
  gap₂ := ⟨List.cons_ne_nil _ _, List.all_eq_true.mp rfl⟩
  trail := List.all_eq_true.mp rfl

theorem xxxEntry_valid : xxxEntry.Valid where
  nr := by decide
  name := ⟨List.cons_ne_nil _ _, List.all_eq_true.mp rfl⟩
  sym := ⟨by decide, List.all_eq_true.mp rfl⟩
  undeclared := by decide
  gap₁ := ⟨List.cons_ne_nil _ _, List.all_eq_true.mp rfl⟩
  gap₂ := ⟨List.cons_ne_nil _ _, List.all_eq_true.mp rfl⟩
  trail := List.all_eq_true.mp rfl

theorem withXxx_valid : ∀ row ∈ withXxx, row.Valid := by
  have hnote : (Row.note ['#', ' ', 'c', 'a', 'l', 'l', 's']).Valid :=
    ⟨by decide, by decide, by decide⟩
  simp only [withXxx, List.forall_mem_cons]
  exact ⟨xxxEntry_valid, hnote, listsyscallEntry_valid, memmapEntry_valid, by simp⟩

theorem compile_syscalltbl_withXxx :
    ∃ table, compile (syscalltbl (printRows withXxx)) = some table ∧
      table.handler 440 = some xxxEntry.sym ∧ table.handler 17 = some memmapEntry.sym := by
  obtain ⟨hsome, hcalls⟩ := compile_syscalltbl withXxx_valid
  obtain ⟨table, htable⟩ := Option.isSome_iff_exists.mp (hsome.mpr (by decide))
  obtain ⟨hhandler, -⟩ := hcalls table htable
  exact ⟨table, htable, (hhandler _ _).mpr ⟨xxxEntry, by decide, rfl, rfl⟩,
    (hhandler _ _).mpr ⟨memmapEntry, by decide, rfl, rfl⟩⟩

end Syscall

end SimpleOs
