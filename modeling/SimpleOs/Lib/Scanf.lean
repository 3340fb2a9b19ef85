import Mathlib

/-!
# Formatted input

Reading from a stream of characters as `fscanf`, `sscanf` and `fgets` of the C
library do. An array in memory has a size, and what the C standard leaves
undefined is an error: more characters than the array holds, or a number that
does not fit.

* `Directive`, `scan`: a format and what it assigns. It stops at the first
  directive that does not match.
* `scan_unsigned`, `scan_word`: a printed number or a word in front of white
  space, after any white space, is read back. `scan_space`: a space in the format
  before a number or a word changes nothing.
* `scan_range`, `scan_overflow`: where reading is undefined.
* `scanInts_cons`, `scanInts_range`: both for a printed signed number.
* `fgets_line`: a line that is short enough is read as a whole.
-/

namespace Scanf

/-- What is left to read. -/
abbrev Input := List Char

/-- `isspace`. -/
def isSpace (c : Char) : Bool :=
  c ∈ [' ', '\t', '\n', '\x0b', '\x0c', '\r']

/-- A directive of a format. -/
inductive Directive
  /-- White space. -/
  | space
  /-- An unsigned number of `w` bits, `%u` or `%lu`. -/
  | unsigned (w : ℕ)
  /-- `%s` into an array of `size` characters. -/
  | word (size : ℕ)
  deriving DecidableEq

/-- What a directive assigns. -/
inductive Value
  | num (n : ℕ)
  | word (s : List Char)
  deriving DecidableEq

/-- What is undefined. -/
inductive Undefined
  /-- The number cannot be represented. -/
  | range
  /-- The array is too small. -/
  | overflow
  deriving DecidableEq

/-- An optional sign; `true` for a minus. -/
def splitSign : Input → Bool × Input
  | '-' :: cs => (true, cs)
  | '+' :: cs => (false, cs)
  | cs => (false, cs)

/-- The longest number at the start, after white space; `none` if there is none. -/
def scanUnsigned (w : ℕ) (cs : Input) : Except Undefined (Option ℕ × Input) :=
  let (neg, cs) := splitSign (cs.dropWhile isSpace)
  let digits := cs.takeWhile Char.isDigit
  let n := Nat.ofDigitChars 10 digits 0
  if digits = [] then .ok (none, cs)
  else if n < 2 ^ w then
    .ok (some (if neg then (2 ^ w - n) % 2 ^ w else n), cs.dropWhile Char.isDigit)
  else .error .range

/-- The longest word at the start, after white space, with the null character that
ends it in the array. -/
def scanWord (size : ℕ) (cs : Input) : Except Undefined (Option (List Char) × Input) :=
  let cs := cs.dropWhile isSpace
  let w := cs.takeWhile fun c => !isSpace c
  if w = [] then .ok (none, cs)
  else if w.length < size then .ok (some w, cs.dropWhile fun c => !isSpace c)
  else .error .overflow

/-- The values that a format assigns, and the rest of the input. -/
def scan : List Directive → Input → Except Undefined (List Value × Input)
  | [], cs => .ok ([], cs)
  | .space :: format, cs => scan format (cs.dropWhile isSpace)
  | .unsigned w :: format, cs => do
    match ← scanUnsigned w cs with
    | (none, cs) => return ([], cs)
    | (some n, cs) =>
      let (vals, cs) ← scan format cs
      return (.num n :: vals, cs)
  | .word size :: format, cs => do
    match ← scanWord size cs with
    | (none, cs) => return ([], cs)
    | (some s, cs) =>
      let (vals, cs) ← scan format cs
      return (.word s :: vals, cs)

/-- The object that the `i`-th conversion is assigned to; it keeps its value if the
format was left before. -/
def storeNum {w : ℕ} (vals : List Value) (i : ℕ) (old : BitVec w) : BitVec w :=
  match vals[i]? with
  | some (.num n) => BitVec.ofNat w n
  | _ => old

/-- The same for an array. -/
def storeWord (vals : List Value) (i : ℕ) (old : List Char) : List Char :=
  match vals[i]? with
  | some (.word s) => s
  | _ => old

/-- At most `n` characters up to a newline, which is included. -/
def takeLine : ℕ → Input → List Char × Input
  | 0, cs => ([], cs)
  | _ + 1, [] => ([], [])
  | n + 1, c :: cs =>
    if c = '\n' then ([c], cs)
    else
      let (line, rest) := takeLine n cs
      (c :: line, rest)

/-- `fgets(s, n, stream)` for an array `s` of `size` characters; `none` for a null
pointer, with `s` as it was. -/
def fgets (size n : ℕ) (cs : Input) : Except Undefined (Option (List Char) × Input) :=
  if cs = [] then .ok (none, [])
  else
    let (line, rest) := takeLine (n - 1) cs
    if line.length < size then .ok (some line, rest) else .error .overflow

/-- The string in an array: up to the first null character. -/
def cString (s : List Char) : List Char :=
  s.takeWhile fun c => c ≠ '\x00'

/-! ## Words and numbers -/

/-- A string of characters that are not white space, as `%s` reads it. -/
def IsWord (s : List Char) : Prop :=
  s ≠ [] ∧ ∀ c ∈ s, isSpace c = false

variable {w n size : ℕ} {s : List Char} {c : Char} {cs rest : Input} {format : List Directive}

theorem IsWord.dropWhile (hs : IsWord s) : (s ++ rest).dropWhile isSpace = s ++ rest := by
  obtain ⟨hne, hspace⟩ := hs
  cases s with
  | nil => exact absurd rfl hne
  | cons d s => exact List.dropWhile_cons_of_neg (by rw [hspace d List.mem_cons_self]; nofun)

theorem not_isSpace_of_isDigit (h : c.isDigit = true) : isSpace c = false := by
  by_contra hspace
  rw [Bool.not_eq_false] at hspace
  have hmem : c ∈ [' ', '\t', '\n', '\x0b', '\x0c', '\r'] := of_decide_eq_true hspace
  simp only [List.mem_cons, List.not_mem_nil, or_false] at hmem
  rcases hmem with rfl | rfl | rfl | rfl | rfl | rfl
  all_goals cases h

/-- A printed number is a word. -/
theorem isWord_toDigits (n : ℕ) : IsWord (Nat.toDigits 10 n) :=
  ⟨Nat.toDigits_ne_nil, fun _ hc =>
    not_isSpace_of_isDigit (Nat.isDigit_of_mem_toDigits (by decide) (by decide) hc)⟩

/-- What stops a scan is the first character outside the class. -/
theorem takeWhile_append_cons {α : Type*} {p : α → Bool} {s rest : List α} {c : α}
    (hs : ∀ d ∈ s, p d = true) (hc : p c = false) :
    (s ++ c :: rest).takeWhile p = s := by
  rw [List.takeWhile_append_of_pos hs, List.takeWhile_cons_of_neg (by rw [hc]; nofun),
    List.append_nil]

theorem dropWhile_append_cons {α : Type*} {p : α → Bool} {s rest : List α} {c : α}
    (hs : ∀ d ∈ s, p d = true) (hc : p c = false) :
    (s ++ c :: rest).dropWhile p = c :: rest := by
  rw [List.dropWhile_append_of_pos hs, List.dropWhile_cons_of_neg (by rw [hc]; nofun)]

theorem splitSign_of_isDigit (h : c.isDigit = true) : splitSign (c :: cs) = (false, c :: cs) := by
  unfold splitSign
  split
  · next heq =>
    cases heq
    cases h
  · next heq =>
    cases heq
    cases h
  · rfl

/-- A printed number in front of white space. -/
theorem scanUnsigned_eq (hcs : cs.dropWhile isSpace = Nat.toDigits 10 n ++ c :: rest)
    (hc : isSpace c = true) :
    scanUnsigned w cs = if n < 2 ^ w then .ok (some n, c :: rest) else .error .range := by
  have hdigits : ∀ d ∈ Nat.toDigits 10 n, d.isDigit = true := fun d hd =>
    Nat.isDigit_of_mem_toDigits (by decide) (by decide) hd
  have hstop : c.isDigit = false := by
    by_contra h
    rw [Bool.not_eq_false] at h
    rw [not_isSpace_of_isDigit h] at hc
    cases hc
  have hsign : splitSign (Nat.toDigits 10 n ++ c :: rest) =
      (false, Nat.toDigits 10 n ++ c :: rest) := by
    cases hlist : Nat.toDigits 10 n with
    | nil => exact absurd hlist Nat.toDigits_ne_nil
    | cons d ds => exact splitSign_of_isDigit (hdigits d (hlist ▸ List.mem_cons_self))
  unfold scanUnsigned
  rw [hcs, hsign]
  dsimp only
  rw [takeWhile_append_cons hdigits hstop, dropWhile_append_cons hdigits hstop,
    if_neg Nat.toDigits_ne_nil, Nat.ofDigitChars_ten_toDigits, if_neg Bool.false_ne_true]

/-- Where no number stands, none is read. -/
theorem scanUnsigned_none (hcs : cs.dropWhile isSpace = c :: rest) (hdigit : c.isDigit = false)
    (hminus : c ≠ '-') (hplus : c ≠ '+') :
    scanUnsigned w cs = .ok (none, c :: rest) := by
  have hsign : splitSign (c :: rest) = (false, c :: rest) := by
    unfold splitSign
    split
    · next heq => cases heq; exact absurd rfl hminus
    · next heq => cases heq; exact absurd rfl hplus
    · rfl
  have hstop : (c :: rest).takeWhile Char.isDigit = [] :=
    List.takeWhile_cons_of_neg (by rw [hdigit]; nofun)
  unfold scanUnsigned
  rw [hcs, hsign]
  dsimp only
  rw [hstop, if_pos rfl]

/-- A word in front of white space. -/
theorem scanWord_eq (hcs : cs.dropWhile isSpace = s ++ c :: rest) (hs : IsWord s)
    (hc : isSpace c = true) :
    scanWord size cs =
      if s.length < size then .ok (some s, c :: rest) else .error .overflow := by
  have hword : ∀ d ∈ s, (!isSpace d) = true := fun d hd => by rw [hs.2 d hd]; rfl
  have hstop : (!isSpace c) = false := by rw [hc]; rfl
  unfold scanWord
  rw [hcs]
  dsimp only
  rw [takeWhile_append_cons hword hstop, dropWhile_append_cons hword hstop, if_neg hs.1]

/-! ## Formats -/

-- Every lemma below goes by the equations of `scan`: they are made here, once for all.
attribute [local simp] scan

/-- A space before a number in the format changes nothing. -/
theorem scan_space :
    scan (.space :: .unsigned w :: format) cs = scan (.unsigned w :: format) cs := by
  simp only [scan, scanUnsigned, List.dropWhile_idempotent]

/-- What a format does depends on what its rest does. -/
theorem scan_cons_congr {format' : List Directive} (d : Directive)
    (h : ∀ cs, scan format cs = scan format' cs) (cs : Input) :
    scan (d :: format) cs = scan (d :: format') cs := by
  cases d with
  | space => simp only [scan, h]
  | unsigned w => simp only [scan, h]
  | word size => simp only [scan, h]

theorem scan_unsigned (hcs : cs.dropWhile isSpace = Nat.toDigits 10 n ++ c :: rest)
    (hc : isSpace c = true) (hn : n < 2 ^ w) :
    scan (.unsigned w :: format) cs =
      (scan format (c :: rest)).map fun res => (.num n :: res.1, res.2) := by
  rw [scan, scanUnsigned_eq hcs hc, if_pos hn]
  rfl

/-- A number that is too large is not defined to be read. -/
theorem scan_range (hcs : cs.dropWhile isSpace = Nat.toDigits 10 n ++ c :: rest)
    (hc : isSpace c = true) (hn : 2 ^ w ≤ n) :
    scan (.unsigned w :: format) cs = .error .range := by
  rw [scan, scanUnsigned_eq hcs hc, if_neg (Nat.not_lt.mpr hn)]
  rfl

/-- A format is left at a number that is not there. -/
theorem scan_none (hcs : cs.dropWhile isSpace = c :: rest) (hdigit : c.isDigit = false)
    (hminus : c ≠ '-') (hplus : c ≠ '+') :
    scan (.unsigned w :: format) cs = .ok ([], c :: rest) := by
  rw [scan, scanUnsigned_none hcs hdigit hminus hplus]
  rfl

theorem scan_word (hcs : cs.dropWhile isSpace = s ++ c :: rest) (hs : IsWord s)
    (hc : isSpace c = true) (hlen : s.length < size) :
    scan [.word size] cs = .ok ([.word s], c :: rest) := by
  rw [scan, scanWord_eq hcs hs hc, if_pos hlen]
  rfl

/-- The same in front of a format. -/
theorem scan_word_cons (hcs : cs.dropWhile isSpace = s ++ c :: rest) (hs : IsWord s)
    (hc : isSpace c = true) (hlen : s.length < size) :
    scan (.word size :: format) cs =
      (scan format (c :: rest)).map fun res => (.word s :: res.1, res.2) := by
  rw [scan, scanWord_eq hcs hs hc, if_pos hlen]
  rfl

/-- A word that is too long overflows the array. -/
theorem scan_overflow (hcs : cs.dropWhile isSpace = s ++ c :: rest) (hs : IsWord s)
    (hc : isSpace c = true) (hlen : size ≤ s.length) :
    scan (.word size :: format) cs = .error .overflow := by
  rw [scan, scanWord_eq hcs hs hc, if_neg (Nat.not_lt.mpr hlen)]
  rfl

/-- Numbers, each after a space. -/
def printNums (ns : List ℕ) : Input :=
  ns.flatMap fun n => ' ' :: Nat.toDigits 10 n

/-- Numbers in front of white space begin with white space. -/
theorem printNums_append_eq_cons (ns : List ℕ) (rest : Input) (hc : isSpace c = true) :
    ∃ d rest', printNums ns ++ c :: rest = d :: rest' ∧ isSpace d = true := by
  cases ns with
  | nil => exact ⟨c, rest, rfl, hc⟩
  | cons n ns => exact ⟨' ', _, rfl, rfl⟩

/-- Numbers that fit are read back. -/
theorem scan_printNums {ns : List ℕ} (hns : ∀ n ∈ ns, n < 2 ^ w) (hc : isSpace c = true) :
    scan (List.replicate ns.length (.unsigned w) ++ format) (printNums ns ++ c :: rest) =
      (scan format (c :: rest)).map fun res => (ns.map .num ++ res.1, res.2) := by
  induction ns with
  | nil =>
    show scan format (c :: rest) = _
    cases scan format (c :: rest) <;> rfl
  | cons n ns ih =>
    obtain ⟨d, rest', hrest, hd⟩ := printNums_append_eq_cons ns rest hc
    have hdrop : (printNums (n :: ns) ++ c :: rest).dropWhile isSpace =
        Nat.toDigits 10 n ++ d :: rest' := by
      rw [← hrest, printNums, List.flatMap_cons, List.cons_append, List.cons_append,
        List.dropWhile_cons_of_pos rfl, List.append_assoc]
      exact (isWord_toDigits n).dropWhile
    rw [List.length_cons, List.replicate_succ, List.cons_append,
      scan_unsigned hdrop hd (hns n List.mem_cons_self), ← hrest,
      ih fun m hm => hns m (List.mem_cons_of_mem _ hm)]
    cases scan format (c :: rest) <;> rfl

theorem scan_printNums_nil {ns : List ℕ} (hns : ∀ n ∈ ns, n < 2 ^ w) (hc : isSpace c = true) :
    scan (List.replicate ns.length (.unsigned w)) (printNums ns ++ c :: rest) =
      .ok (ns.map .num, c :: rest) := by
  rw [← List.append_nil (List.replicate _ _), scan_printNums hns hc]
  simp only [scan, Except.map, List.append_nil]

theorem scan_printNums_space {ns : List ℕ} (hns : ∀ n ∈ ns, n < 2 ^ w) (hc : isSpace c = true) :
    scan (List.replicate ns.length (.unsigned w) ++ [.space]) (printNums ns ++ c :: rest) =
      .ok (ns.map .num, rest.dropWhile isSpace) := by
  rw [scan_printNums hns hc]
  simp only [scan, Except.map, List.append_nil, List.dropWhile_cons_of_pos hc]

/-! ## Signed numbers -/

/-- The longest signed number at the start, `%d` for an `int` of `w` bits. -/
def scanSigned (w : ℕ) (cs : Input) : Except Undefined (Option ℤ × Input) :=
  let (neg, cs) := splitSign (cs.dropWhile isSpace)
  let digits := cs.takeWhile Char.isDigit
  let n : ℤ := Nat.ofDigitChars 10 digits 0
  let k := if neg then -n else n
  if digits = [] then .ok (none, cs)
  else if -2 ^ (w - 1) ≤ k ∧ k < 2 ^ (w - 1) then .ok (some k, cs.dropWhile Char.isDigit)
  else .error .range

/-- What `n` directives `%d` with white space behind each assign. -/
def scanInts (w : ℕ) : ℕ → Input → Except Undefined (List ℤ × Input)
  | 0, cs => .ok ([], cs)
  | n + 1, cs => do
    match ← scanSigned w cs with
    | (none, cs) => return ([], cs)
    | (some k, cs) =>
      let (ks, cs) ← scanInts w n (cs.dropWhile isSpace)
      return (k :: ks, cs)

/-- The object that the `i`-th of them is assigned to. -/
def storeInt {w : ℕ} (ks : List ℤ) (i : ℕ) (old : BitVec w) : BitVec w :=
  (ks[i]?).elim old (BitVec.ofInt w)

/-- `%d` of `printf`. -/
def printInt (k : ℤ) : Input :=
  if k < 0 then '-' :: Nat.toDigits 10 k.natAbs else Nat.toDigits 10 k.natAbs

theorem isWord_printInt (k : ℤ) : IsWord (printInt k) := by
  unfold printInt
  split
  · refine ⟨nofun, fun c hc => ?_⟩
    rcases List.mem_cons.mp hc with rfl | hc
    · rfl
    · exact (isWord_toDigits k.natAbs).2 c hc
  · exact isWord_toDigits k.natAbs

/-- The sign is split off a printed number. -/
theorem splitSign_printInt (k : ℤ) (rest : Input) :
    splitSign (printInt k ++ rest) = (decide (k < 0), Nat.toDigits 10 k.natAbs ++ rest) := by
  unfold printInt
  split
  · next hneg => rw [decide_eq_true hneg]; rfl
  · next hneg =>
    rw [decide_eq_false hneg]
    cases hlist : Nat.toDigits 10 k.natAbs with
    | nil => exact absurd hlist Nat.toDigits_ne_nil
    | cons d ds =>
      exact splitSign_of_isDigit (Nat.isDigit_of_mem_toDigits (by decide) (by decide)
        (hlist ▸ List.mem_cons_self))

/-- A printed number in front of white space. -/
theorem scanSigned_printInt {k : ℤ} (hc : isSpace c = true) :
    scanSigned w (printInt k ++ c :: rest) =
      if -2 ^ (w - 1) ≤ k ∧ k < 2 ^ (w - 1) then .ok (some k, c :: rest) else .error .range := by
  have hdigits : ∀ d ∈ Nat.toDigits 10 k.natAbs, d.isDigit = true := fun d hd =>
    Nat.isDigit_of_mem_toDigits (by decide) (by decide) hd
  have hstop : c.isDigit = false := by
    by_contra h
    rw [Bool.not_eq_false] at h
    rw [not_isSpace_of_isDigit h] at hc
    cases hc
  have hk : (if decide (k < 0) = true then -(k.natAbs : ℤ) else k.natAbs) = k := by
    split <;> simp only [decide_eq_true_eq] at * <;> omega
  unfold scanSigned
  rw [(isWord_printInt k).dropWhile, splitSign_printInt]
  dsimp only
  rw [takeWhile_append_cons hdigits hstop, dropWhile_append_cons hdigits hstop,
    if_neg Nat.toDigits_ne_nil, Nat.ofDigitChars_ten_toDigits, hk]

theorem scanInts_cons {k : ℤ} (hc : isSpace c = true)
    (hk : -2 ^ (w - 1) ≤ k ∧ k < 2 ^ (w - 1)) :
    scanInts w (n + 1) (printInt k ++ c :: rest) =
      (scanInts w n (rest.dropWhile isSpace)).map fun res => (k :: res.1, res.2) := by
  rw [scanInts, scanSigned_printInt hc, if_pos hk, ← List.dropWhile_cons_of_pos hc]
  rfl

/-- A signed number that is too large, or too small, is not defined to be read. -/
theorem scanInts_range {k : ℤ} (hc : isSpace c = true)
    (hk : ¬ (-2 ^ (w - 1) ≤ k ∧ k < 2 ^ (w - 1))) :
    scanInts w (n + 1) (printInt k ++ c :: rest) = .error .range := by
  rw [scanInts, scanSigned_printInt hc, if_neg hk]
  rfl

/-! ## Lines -/

theorem takeLine_eq (hs : ∀ d ∈ s, d ≠ '\n') (hlen : s.length < n) :
    takeLine n (s ++ '\n' :: rest) = (s ++ ['\n'], rest) := by
  induction s generalizing n with
  | nil =>
    cases n with
    | zero => cases hlen
    | succ n => rfl
  | cons d s ih =>
    cases n with
    | zero => cases hlen
    | succ n =>
      rw [List.cons_append, takeLine, if_neg (hs d List.mem_cons_self),
        ih (fun e he => hs e (List.mem_cons_of_mem _ he)) (Nat.lt_of_succ_lt_succ hlen)]
      rfl

/-- A line that is short enough is read as a whole. -/
theorem fgets_line (hs : ∀ d ∈ s, d ≠ '\n') (hlen : s.length + 1 < size) :
    fgets size size (s ++ '\n' :: rest) = .ok (some (s ++ ['\n']), rest) := by
  have hne : s ++ '\n' :: rest ≠ [] := by cases s <;> nofun
  unfold fgets
  rw [if_neg hne, takeLine_eq hs (Nat.lt_sub_of_add_lt hlen)]
  dsimp only
  rw [if_pos (by rw [List.length_append]; exact hlen)]

end Scanf
