import SimpleOs.Common

/-!
# Reading and writing a device

The bytes of a `memphy_struct`. A device is either random access, and its bytes
are reached directly, or sequential, and they are reached through routines of
their own, which first walk a cursor to the address. Both routines give up
unless the device is random access, so a sequential device, for which alone they
are called, is never read or written.

Results:
1. `read_ok`, `write_ok`: on a random-access device a call inside the storage
   succeeds.
2. `cursor_mvCsr`: where the cursor ends.
3. `interchangeable_iff`: a sequential device behaves like a random-access one
   only as long as it is not used.
-/

namespace SimpleOs

/-- `struct memphy_struct`, as far as bytes go. -/
structure MemphyDev where
  storage : List (BitVec 8)
  maxsz : ℤ
  rdmflg : ℤ
  cursor : ℤ
  /-- `maxsz` is an `int`. -/
  maxsz_lt : maxsz < 2 ^ 31
  /-- At least `maxsz` bytes are allocated. -/
  maxsz_le : maxsz ≤ storage.length

namespace MemphyDev

/-- `mp->storage[addr]`. -/
def load (mp : MemphyDev) (addr : Addr) : Except Fault (BitVec 8) :=
  match mp.storage[addr.toNat]? with
  | none => .error .outOfBounds
  | some value => .ok value

/-- `mp->storage[addr] = data`. -/
def store (mp : MemphyDev) (addr : Addr) (data : BitVec 8) : Except Fault MemphyDev :=
  if addr.toNat < mp.storage.length then
    .ok { mp with
      storage := mp.storage.set addr.toNat data
      maxsz_le := by rw [List.length_set]; exact mp.maxsz_le }
  else .error .outOfBounds

/-- The loop of `MEMPHY_mv_csr`: the cursor after it. The loop makes at most
`maxsz` rounds, which is the fuel. -/
def mvCsrLoop (maxsz : ℤ) (offset : Addr) : ℕ → ℤ → ℤ → ℤ
  | 0, _, cursor => cursor
  | rounds + 1, numstep, cursor =>
    if numstep < offset.toNat ∧ numstep < maxsz then
      mvCsrLoop maxsz offset rounds (numstep + 1) ((cursor + 1).tmod maxsz)
    else cursor

/-- `MEMPHY_mv_csr`. -/
def mvCsr (mp : MemphyDev) (offset : Addr) : MemphyDev :=
  { mp with cursor := mvCsrLoop mp.maxsz offset mp.maxsz.toNat 0 0 }

/-- `MEMPHY_seq_read`: the return value, `*value` and the device after the call.
`value` is what `*value` is before it. -/
def seqRead (mp : MemphyDev) (addr : Addr) (value : BitVec 8) :
    Except Fault (ℤ × BitVec 8 × MemphyDev) :=
  if mp.rdmflg = 0 then .ok (-1, value, mp)
  else do
    let mp := mp.mvCsr addr
    let value ← mp.load addr
    return (0, value, mp)

/-- `MEMPHY_read`. -/
def read (mp : MemphyDev) (addr : Addr) (value : BitVec 8) :
    Except Fault (ℤ × BitVec 8 × MemphyDev) :=
  if mp.rdmflg ≠ 0 then do
    let value ← mp.load addr
    return (0, value, mp)
  else mp.seqRead addr value

/-- `MEMPHY_seq_write`. -/
def seqWrite (mp : MemphyDev) (addr : Addr) (value : BitVec 8) : Except Fault (ℤ × MemphyDev) :=
  if mp.rdmflg = 0 then .ok (-1, mp)
  else do
    let mp := mp.mvCsr addr
    let mp ← mp.store addr value
    return (0, mp)

/-- `MEMPHY_write`. -/
def write (mp : MemphyDev) (addr : Addr) (data : BitVec 8) : Except Fault (ℤ × MemphyDev) :=
  if mp.rdmflg ≠ 0 then do
    let mp ← mp.store addr data
    return (0, mp)
  else mp.seqWrite addr data

/-- `init_memphy`, without the free frames. `cursor` is what the memory of the
structure holds, which a random-access device keeps. -/
def initMemphy (maxSize : Addr) (randomflg cursor : ℤ) : MemphyDev where
  storage := List.replicate maxSize.toNat 0
  maxsz := (maxSize.setWidth 32).toInt
  rdmflg := if randomflg ≠ 0 then 1 else 0
  cursor := if randomflg ≠ 0 then cursor else 0
  maxsz_lt := BitVec.toInt_lt
  maxsz_le := by
    rw [List.length_replicate]
    have hint : (maxSize.setWidth 32).toInt ≤ (maxSize.setWidth 32).toNat := by
      rw [BitVec.toInt_eq_toNat_cond]
      split <;> omega
    have hnat : (maxSize.setWidth 32).toNat ≤ maxSize.toNat := by
      rw [BitVec.toNat_setWidth]
      exact Nat.mod_le _ _
    omega

/-! ## Random access -/

theorem load_ok {mp : MemphyDev} {addr : Addr} {v : BitVec 8}
    (h : mp.storage[addr.toNat]? = some v) : mp.load addr = .ok v := by
  unfold load
  rw [h]

theorem load_error {mp : MemphyDev} {addr : Addr} (h : mp.storage.length ≤ addr.toNat) :
    mp.load addr = .error .outOfBounds := by
  unfold load
  rw [List.getElem?_eq_none h]

theorem read_ok {mp : MemphyDev} (hrdm : mp.rdmflg ≠ 0) {addr : Addr} {v : BitVec 8}
    (h : mp.storage[addr.toNat]? = some v) (value : BitVec 8) :
    mp.read addr value = .ok (0, v, mp) := by
  unfold read
  rw [if_pos hrdm, load_ok h]
  rfl

theorem read_error {mp : MemphyDev} (hrdm : mp.rdmflg ≠ 0) {addr : Addr}
    (h : mp.storage.length ≤ addr.toNat) (value : BitVec 8) :
    mp.read addr value = .error .outOfBounds := by
  unfold read
  rw [if_pos hrdm, load_error h]
  rfl

theorem write_ok {mp : MemphyDev} (hrdm : mp.rdmflg ≠ 0) {addr : Addr}
    (h : addr.toNat < mp.storage.length) (data : BitVec 8) :
    ∃ mp', mp.write addr data = .ok (0, mp') ∧ mp'.storage = mp.storage.set addr.toNat data ∧
      mp'.maxsz = mp.maxsz ∧ mp'.rdmflg = mp.rdmflg := by
  unfold write store
  rw [if_pos hrdm, if_pos h]
  exact ⟨_, rfl, rfl, rfl, rfl⟩

theorem write_error {mp : MemphyDev} (hrdm : mp.rdmflg ≠ 0) {addr : Addr}
    (h : mp.storage.length ≤ addr.toNat) (data : BitVec 8) :
    mp.write addr data = .error .outOfBounds := by
  unfold write store
  rw [if_pos hrdm, if_neg (not_lt.mpr h)]
  rfl

/-! ## Sequential access -/

theorem mvCsrLoop_eq {maxsz : ℤ} {offset : Addr} {rounds : ℕ} {numstep : ℤ}
    (hnonneg : 0 ≤ numstep) (hoffset : numstep ≤ offset.toNat)
    (hrounds : maxsz = numstep + rounds) :
    mvCsrLoop maxsz offset rounds numstep (numstep.tmod maxsz) =
      (min (offset.toNat : ℤ) maxsz).tmod maxsz := by
  induction rounds generalizing numstep with
  | zero =>
    have hend : numstep = maxsz := by simpa using hrounds.symm
    rw [mvCsrLoop, ← hend, min_eq_right hoffset]
  | succ rounds ih =>
    rw [mvCsrLoop]
    split
    · next hround =>
      have hcursor : numstep.tmod maxsz = numstep := Int.tmod_eq_of_lt hnonneg hround.2
      rw [hcursor]
      exact ih (by omega) (by omega) (by omega)
    · next hdone =>
      have hmin : min (offset.toNat : ℤ) maxsz = numstep := by omega
      rw [hmin]

/-- The cursor ends at the address, or wraps to 0 at the capacity. -/
theorem cursor_mvCsr (mp : MemphyDev) (h : 0 ≤ mp.maxsz) (offset : Addr) :
    (mp.mvCsr offset).cursor = (min (offset.toNat : ℤ) mp.maxsz).tmod mp.maxsz := by
  have hloop : mvCsrLoop mp.maxsz offset mp.maxsz.toNat 0 ((0 : ℤ).tmod mp.maxsz) =
      (min (offset.toNat : ℤ) mp.maxsz).tmod mp.maxsz :=
    mvCsrLoop_eq le_rfl (Int.natCast_nonneg offset.toNat) (by omega)
  rwa [Int.zero_tmod] at hloop

theorem read_sequential {mp : MemphyDev} (hseq : mp.rdmflg = 0) (addr : Addr)
    (value : BitVec 8) : mp.read addr value = .ok (-1, value, mp) := by
  unfold read seqRead
  rw [if_neg (not_not.mpr hseq), if_pos hseq]

theorem write_sequential {mp : MemphyDev} (hseq : mp.rdmflg = 0) (addr : Addr)
    (data : BitVec 8) : mp.write addr data = .ok (-1, mp) := by
  unfold write seqWrite
  rw [if_neg (not_not.mpr hseq), if_pos hseq]

/-- What a read and a write do, as far as it decides when they return. -/
theorem returns_iff_inside {α : Type} {call : Except Fault α} {mp : MemphyDev} {addr : Addr}
    (hseq : mp.rdmflg = 0 → ∃ result, call = .ok result)
    (hin : mp.rdmflg ≠ 0 → addr.toNat < mp.storage.length → ∃ result, call = .ok result)
    (hout : mp.rdmflg ≠ 0 → mp.storage.length ≤ addr.toNat → call = .error .outOfBounds) :
    (∃ result, call = .ok result) ↔ (mp.rdmflg ≠ 0 → addr.toNat < mp.storage.length) := by
  by_cases hrdm : mp.rdmflg = 0
  · exact iff_of_true (hseq hrdm) fun h => absurd hrdm h
  · rcases Nat.lt_or_ge addr.toNat mp.storage.length with hlt | hge
    · exact iff_of_true (hin hrdm hlt) fun _ => hlt
    · rw [hout hrdm hge]
      exact iff_of_false (fun ⟨_, h⟩ => by cases h) fun h => absurd (h hrdm) hge.not_gt

/-- A read returns unless it is one of a random-access device outside its storage. -/
theorem read_returns_iff (mp : MemphyDev) (addr : Addr) (value : BitVec 8) :
    (∃ result, mp.read addr value = .ok result) ↔
      (mp.rdmflg ≠ 0 → addr.toNat < mp.storage.length) :=
  returns_iff_inside (fun hseq => ⟨_, read_sequential hseq addr value⟩)
    (fun hrdm hlt => ⟨_, read_ok hrdm (List.getElem?_eq_getElem hlt) value⟩)
    fun hrdm hge => read_error hrdm hge value

/-- And so does a write. -/
theorem write_returns_iff (mp : MemphyDev) (addr : Addr) (data : BitVec 8) :
    (∃ result, mp.write addr data = .ok result) ↔
      (mp.rdmflg ≠ 0 → addr.toNat < mp.storage.length) := by
  refine returns_iff_inside (fun hseq => ⟨_, write_sequential hseq addr data⟩)
    (fun hrdm hlt => ?_) fun hrdm hge => write_error hrdm hge data
  obtain ⟨mp', hwrite, -⟩ := write_ok hrdm hlt data
  exact ⟨_, hwrite⟩

/-! ## Sequences of calls -/

/-- A call on a device; `value` is what `*value` is before a read. -/
inductive IoCall
  | read (addr : Addr) (value : BitVec 8)
  | write (addr : Addr) (data : BitVec 8)
  deriving DecidableEq

/-- The address of a call. -/
def IoCall.addr : IoCall → Addr
  | .read addr _ | .write addr _ => addr

/-- The call: the return value, the byte read if it is a read, and the device. -/
def IoCall.run (mp : MemphyDev) : IoCall → Except Fault ((ℤ × Option (BitVec 8)) × MemphyDev)
  | .read addr value => (mp.read addr value).map fun (ret, value, mp) => ((ret, some value), mp)
  | .write addr data => (mp.write addr data).map fun (ret, mp) => ((ret, none), mp)

/-- A sequence of calls: what each returns, and the device after them. -/
def runCalls (mp : MemphyDev) :
    List IoCall → Except Fault (List (ℤ × Option (BitVec 8)) × MemphyDev)
  | [] => .ok ([], mp)
  | call :: calls => do
    let (result, mp) ← call.run mp
    let (results, mp) ← runCalls mp calls
    return (result :: results, mp)

/-- The calls return the same on a sequential and on a random-access device of
the size `maxSize` and leave the same bytes. -/
def Interchangeable (maxSize : Addr) (cursor : ℤ) (calls : List IoCall) : Prop :=
  ∃ results mp mp', runCalls (initMemphy maxSize 0 cursor) calls = .ok (results, mp) ∧
    runCalls (initMemphy maxSize 1 cursor) calls = .ok (results, mp') ∧ mp.storage = mp'.storage

theorem run_sequential {mp : MemphyDev} (hseq : mp.rdmflg = 0) (call : IoCall) :
    ∃ value, call.run mp = .ok ((-1, value), mp) := by
  cases call with
  | read addr value =>
    refine ⟨some value, ?_⟩
    rw [IoCall.run, read_sequential hseq]
    rfl
  | write addr data =>
    refine ⟨none, ?_⟩
    rw [IoCall.run, write_sequential hseq]
    rfl

theorem run_random {mp : MemphyDev} (hrdm : mp.rdmflg ≠ 0) {call : IoCall}
    (h : call.addr.toNat < mp.storage.length) :
    ∃ value mp', call.run mp = .ok ((0, value), mp') := by
  cases call with
  | read addr value =>
    have hin : addr.toNat < mp.storage.length := h
    refine ⟨some mp.storage[addr.toNat], mp, ?_⟩
    rw [IoCall.run, read_ok hrdm (List.getElem?_eq_getElem hin)]
    rfl
  | write addr data =>
    have hin : addr.toNat < mp.storage.length := h
    obtain ⟨mp', hwrite, -⟩ := write_ok hrdm hin data
    refine ⟨none, mp', ?_⟩
    rw [IoCall.run, hwrite]
    rfl

/-- For every capacity and every sequence of calls inside it, a sequential device
behaves like a random-access one exactly if the sequence is empty. -/
theorem interchangeable_iff (maxSize : Addr) (cursor : ℤ) {calls : List IoCall}
    (hinside : ∀ call ∈ calls, call.addr.toNat < maxSize.toNat) :
    Interchangeable maxSize cursor calls ↔ calls = [] := by
  constructor
  · rintro ⟨results, mp, mp', hseq, hrdm, -⟩
    cases calls with
    | nil => rfl
    | cons call calls =>
      have hflag : (initMemphy maxSize 0 cursor).rdmflg = 0 := rfl
      have hflag' : (initMemphy maxSize 1 cursor).rdmflg ≠ 0 := one_ne_zero
      have hlen : (initMemphy maxSize 1 cursor).storage.length = maxSize.toNat :=
        List.length_replicate
      obtain ⟨value, hcall⟩ := run_sequential hflag call
      obtain ⟨value', mp₁, hcall'⟩ :=
        run_random hflag' (hlen ▸ hinside call (List.mem_cons_self ..))
      unfold runCalls at hseq hrdm
      rw [hcall, ok_bind] at hseq
      rw [hcall', ok_bind] at hrdm
      obtain ⟨rest, -, hseq⟩ := bind_eq_ok.mp hseq
      obtain ⟨rest', -, hrdm⟩ := bind_eq_ok.mp hrdm
      cases hseq
      cases hrdm
  · rintro rfl
    exact ⟨[], _, _, rfl, rfl, rfl⟩

/-- No call at all is answered alike, and a write and a read are not. -/
theorem interchangeable_iff_writeRead :
    Interchangeable 256 0 [] ∧ ¬ Interchangeable 256 0 [.write 3 7, .read 3 0] := by
  refine ⟨(interchangeable_iff 256 0 (by decide)).mpr rfl, fun h => ?_⟩
  have hnil := (interchangeable_iff 256 0 (by decide)).mp h
  cases hnil

/-- The first read of a sequential device of 256 bytes fails. -/
theorem not_interchangeable_read :
    (∀ call ∈ [IoCall.read 0 0], call.addr.toNat < (256 : Addr).toNat) ∧
    ¬ Interchangeable 256 0 [.read 0 0] := by
  refine ⟨by decide, ?_⟩
  rintro ⟨results, mp, mp', hseq, hrdm, -⟩
  have hseq' : runCalls (initMemphy 256 0 0) [.read 0 0] =
      .ok ([(-1, some 0)], initMemphy 256 0 0) := rfl
  have hrdm' : runCalls (initMemphy 256 1 0) [.read 0 0] =
      .ok ([(0, some 0)], initMemphy 256 1 0) := rfl
  rw [hseq'] at hseq
  rw [hrdm'] at hrdm
  cases hseq
  cases hrdm

end MemphyDev

end SimpleOs
