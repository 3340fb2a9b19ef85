import SimpleOs.SwapCopy

/-!
# The memmap system call

System call 17 hands its operation on to the memory of the kernel, or should.
Its handler makes a process and a kernel structure of its own and never fills
them in, so the pointer to RAM that it uses is whatever `malloc` left there. It
returns 0 wherever it returns, and it puts the byte that was read into a 64-bit
register as a signed number.

`sys_mem.c` includes `os-mm.h` before anything defines `MM64`. In this file alone
an `addr_t` has 32 bits, so an address is cut, and a `pcb_t` is shorter than in the
others.

Results:
1. `not_readsBack`: the call reads back what it wrote for no kernel, no address
   and no byte.
2. `reads_back_right_iff`, `syscall_outside_right`: what it would do if the
   pointer happened to be the right one. Only the bytes below 128 would read back,
   and an address counts by its lower half.
3. `sysMemmap_returns_iff`: when it returns.
-/

namespace SimpleOs

namespace SysMemmap

open MemphyDev

/-- The devices in memory, by their addresses. -/
abbrev Devs := ℕ → Option MemphyDev

/-- `struct sc_regs`, as far as the handler uses it. -/
structure ScRegs where
  a1 : Addr
  a2 : Addr
  a3 : Addr
  deriving DecidableEq

/-- What the memory holds that the handler does not write before it reads it: the
pointer of the new kernel structure, and `value`. -/
structure Raw where
  mram : Option ℕ
  value : BitVec 8

def sysmemMapOp : ℤ := 1

def sysmemIncOp : ℤ := 2

def sysmemSwpOp : ℤ := 3

def sysmemIoRead : ℤ := 4

def sysmemIoWrite : ℤ := 5

/-- An argument as an `addr_t` of `sys_mem.c`; `MEMPHY_read` and `MEMPHY_write` get
64 bits again. -/
def toAddr (arg : BitVec 64) : Addr :=
  (arg.setWidth 32).setWidth 64

/-- Where `krnl` is in a `struct pcb_t` with 10 registers of `addrSize` bytes. -/
def krnlOffset (addrSize : ℕ) : ℕ :=
  -- `pid`, `priority`, `path`, `code`, `regs`, `pc` and `prio`.
  4 + 4 + (100 + 4) + 8 + 10 * addrSize + 4 + 4

/-- The size of this structure: `page_table` and `bp` come behind the pointer. -/
def pcbSize (addrSize : ℕ) : ℕ :=
  krnlOffset addrSize + 8 + 8 + (4 + 4)

/-- `MEMPHY_read` on a pointer: the return value, `*value` and the devices. -/
def memphyRead (devs : Devs) (mp : Option ℕ) (addr : Addr) (value : BitVec 8) :
    Except Fault (ℤ × BitVec 8 × Devs) :=
  match mp with
  | none => .ok (-1, value, devs)
  | some p =>
    match devs p with
    | none => .error .wildDeref
    | some dev => do
      let (ret, value, dev) ← dev.read addr value
      return (ret, value, Function.update devs p (some dev))

/-- `MEMPHY_write` on a pointer: the return value and the devices. -/
def memphyWrite (devs : Devs) (mp : Option ℕ) (addr : Addr) (data : BitVec 8) :
    Except Fault (ℤ × Devs) :=
  match mp with
  | none => .ok (-1, devs)
  | some p =>
    match devs p with
    | none => .error .wildDeref
    | some dev => do
      let (ret, dev) ← dev.write addr data
      return (ret, Function.update devs p (some dev))

/-- `caller->krnl` in a file with addresses of `addrSize` bytes; the `caller` that
`sys_mem.c` allocates has addresses of 4. -/
def callerKrnl (addrSize : ℕ) : Except Fault Unit :=
  if krnlOffset addrSize + 8 ≤ pcbSize 4 then .ok () else .error .outOfBounds

/-- The callee is `__mm_swap_page` of `mm-vm.c`, where an address has 8 bytes. -/
def mmSwapPage (_vicfpn _swpfpn : Addr) : Except Fault Unit :=
  callerKrnl 8

/-- `__sys_memmap`: the return value, the registers and the devices. -/
def sysMemmap (raw : Raw) (devs : Devs) (regs : ScRegs) : Except Fault (ℤ × ScRegs × Devs) :=
  let memop := (regs.a1.setWidth 32).toInt
  -- `vmap_pgd_memset` and `inc_vma_limit` have no body.
  if memop = sysmemMapOp ∨ memop = sysmemIncOp then .ok (0, regs, devs)
  else if memop = sysmemSwpOp then do
    mmSwapPage (toAddr regs.a2) (toAddr regs.a3)
    return (0, regs, devs)
  else if memop = sysmemIoRead then do
    let (_, value, devs) ← memphyRead devs raw.mram (toAddr regs.a2) raw.value
    return (0, { regs with a3 := value.signExtend 64 }, devs)
  else if memop = sysmemIoWrite then do
    let (_, devs) ← memphyWrite devs raw.mram (toAddr regs.a2) (regs.a3.setWidth 8)
    return (0, regs, devs)
  else .ok (0, regs, devs)

/-- `_syscall`, with the table that `syscall.tbl` lists. The kernel is passed on
to the handlers, which do not use it. -/
def syscall (raw : Raw) (devs : Devs) (nr : BitVec 32) (regs : ScRegs) :
    Except Fault (ℤ × ScRegs × Devs) :=
  -- `sys_listsyscall` prints the table; `__sys_ni_syscall` does nothing.
  if nr = 17 then sysMemmap raw devs regs else .ok (0, regs, devs)

/-! ## Reading back -/

/-- The devices in memory and the one that is RAM of the kernel, which is random
access. -/
structure Krnl where
  devs : Devs
  mram : ℕ
  ram : MemphyDev
  at_mram : devs mram = some ram
  random : ram.rdmflg ≠ 0

/-- An I/O call on an address. -/
structure IoCall where
  raw : Raw
  write : Bool
  addr : Addr
  a3 : Addr

/-- Its registers. -/
def IoCall.regs (call : IoCall) : ScRegs where
  a1 := if call.write then 5 else 4
  a2 := call.addr
  a3 := call.a3

/-- I/O calls, one after the other. -/
def runIo (devs : Devs) (calls : List IoCall) : Except Fault Devs :=
  calls.foldlM (fun devs call => (syscall call.raw devs 17 call.regs).map fun res => res.2.2) devs

/-- The call that writes the byte `v` to `a` changes this byte of RAM and nothing
else, and after any calls on other addresses the call that reads `a` yields `v`. -/
def ReadsBackInside (krnl : Krnl) (a : Addr) (v : BitVec 8) : Prop :=
  ∀ raw, ∃ ret regs devs ram,
    syscall raw krnl.devs 17 ⟨5, a, v.setWidth 64⟩ = .ok (ret, regs, devs) ∧
    devs = Function.update krnl.devs krnl.mram (some ram) ∧
    ram.storage = krnl.ram.storage.set a.toNat v ∧
    ∀ calls : List IoCall, (∀ call ∈ calls, call.addr ≠ a) → ∀ devs',
      runIo devs calls = .ok devs' → ∀ raw' a3, ∃ ret' regs' devs'',
        syscall raw' devs' 17 ⟨4, a, a3⟩ = .ok (ret', regs', devs'') ∧ regs'.a3 = v.setWidth 64

/-- Both calls report an error and change nothing. -/
def FailsOutside (krnl : Krnl) (a : Addr) : Prop :=
  ∀ raw a1, a1 = 4 ∨ a1 = 5 → ∀ a3, ∃ ret regs,
    syscall raw krnl.devs 17 ⟨a1, a, a3⟩ = .ok (ret, regs, krnl.devs) ∧ ret ≠ 0

/-- What the call promises for the address `a` and the byte `v`, whatever the
memory holds that it does not initialise. -/
def ReadsBack (krnl : Krnl) (a : Addr) (v : BitVec 8) : Prop :=
  if (a.toNat : ℤ) < krnl.ram.maxsz then ReadsBackInside krnl a v else FailsOutside krnl a

/-- What a call finds where `malloc` left a null pointer and the stack `value`. -/
def nullRaw (value : BitVec 8) : Raw where
  mram := none
  value := value

theorem setWidth_setWidth_byte (v : BitVec 8) : (v.setWidth 64).setWidth 8 = v := by
  rw [BitVec.setWidth_setWidth_of_le _ (by decide), BitVec.setWidth_eq]

/-- A byte is the low byte of the word that it is extended to. -/
theorem setWidth_signExtend {w : ℕ} (h : 8 ≤ w) (v : BitVec 8) :
    (v.signExtend w).setWidth 8 = v := by
  refine BitVec.eq_of_getLsbD_eq fun i hi => ?_
  have hiw : i < w := hi.trans_le h
  rw [BitVec.getLsbD_setWidth, BitVec.getLsbD_signExtend]
  simp [hi, hiw]

theorem syscall_write_null (value : BitVec 8) (devs : Devs) (a a3 : Addr) :
    syscall (nullRaw value) devs 17 ⟨5, a, a3⟩ = .ok (0, ⟨5, a, a3⟩, devs) := rfl

theorem syscall_read_null (value : BitVec 8) (devs : Devs) (a a3 : Addr) :
    syscall (nullRaw value) devs 17 ⟨4, a, a3⟩ =
      .ok (0, ⟨4, a, value.signExtend 64⟩, devs) := rfl

/-- For no kernel, no address and no byte does the call keep its promise. -/
theorem not_readsBack (krnl : Krnl) (a : Addr) (v : BitVec 8) : ¬ ReadsBack krnl a v := by
  unfold ReadsBack
  split
  · intro h
    obtain ⟨ret, regs, devs, ram, hwrite, -, -, hread⟩ := h (nullRaw 0)
    rw [syscall_write_null] at hwrite
    cases hwrite
    -- The read finds the next byte on the stack.
    obtain ⟨ret', regs', devs'', hread, ha3⟩ :=
      hread [] (fun _ hmem => by cases hmem) krnl.devs rfl (nullRaw (v + 1)) 0
    rw [syscall_read_null] at hread
    cases hread
    have hbyte : v + 1 = v := by
      have hlow := congrArg (BitVec.setWidth 8) ha3
      rwa [setWidth_signExtend (by decide), setWidth_setWidth_byte] at hlow
    have hnat := congrArg BitVec.toNat hbyte
    rw [BitVec.toNat_add] at hnat
    have hv := v.isLt
    have hone : (1 : BitVec 8).toNat = 1 := rfl
    omega
  · intro h
    obtain ⟨ret, regs, hwrite, hret⟩ := h (nullRaw 0) 5 (.inr rfl) 0
    rw [syscall_write_null] at hwrite
    cases hwrite
    exact hret rfl

/-- RAM of 256 bytes at address 0 of the memory. -/
def smallKrnl : Krnl where
  devs := Function.update (fun _ => none) 0 (some (initMemphy 256 1 0))
  mram := 0
  ram := initMemphy 256 1 0
  at_mram := Function.update_self ..
  random := one_ne_zero

/-- Byte 5 is written to address 0, inside the device: nothing is written, and 0
is returned as for a success. -/
theorem syscall_write_lost :
    (0 : Addr).toNat < smallKrnl.ram.maxsz ∧
    syscall (nullRaw 0) smallKrnl.devs 17 ⟨5, 0, 5⟩ = .ok (0, ⟨5, 0, 5⟩, smallKrnl.devs) ∧
    ¬ ReadsBack smallKrnl 0 5 := by
  have hin : ((0 : Addr).toNat : ℤ) < smallKrnl.ram.maxsz := by decide
  refine ⟨hin, rfl, fun h => ?_⟩
  unfold ReadsBack at h
  rw [if_pos hin] at h
  obtain ⟨ret, regs, devs, ram, hwrite, hdevs, hstorage, -⟩ := h (nullRaw 0)
  rw [syscall_write_null] at hwrite
  cases hwrite
  have hram : smallKrnl.devs 0 = some ram := by
    rw [hdevs]
    exact Function.update_self ..
  cases (smallKrnl.at_mram.symm.trans hram)
  exact absurd hstorage (by decide)

/-! ## With the right pointer -/

/-- If the pointer happens to be the one to RAM, the byte at the lower half of the
address is written. -/
theorem syscall_write_right {krnl : Krnl} {raw : Raw} (hraw : raw.mram = some krnl.mram)
    {a : Addr} (ha : (toAddr a).toNat < krnl.ram.storage.length) (v : BitVec 8) :
    ∃ ram, syscall raw krnl.devs 17 ⟨5, a, v.setWidth 64⟩ =
        .ok (0, ⟨5, a, v.setWidth 64⟩, Function.update krnl.devs krnl.mram (some ram)) ∧
      ram.storage = krnl.ram.storage.set (toAddr a).toNat v ∧ ram.rdmflg ≠ 0 := by
  obtain ⟨ram, hwrite, hstorage, -, hflag⟩ := write_ok krnl.random ha v
  refine ⟨ram, ?_, hstorage, hflag ▸ krnl.random⟩
  show (memphyWrite krnl.devs raw.mram (toAddr a) ((v.setWidth 64).setWidth 8) >>= fun res =>
    pure (0, (⟨5, a, v.setWidth 64⟩ : ScRegs), res.2)) = _
  rw [hraw, setWidth_setWidth_byte, memphyWrite, krnl.at_mram]
  dsimp only
  rw [hwrite]
  rfl

/-- Then a read yields the byte, extended by its sign. -/
theorem syscall_read_right {krnl : Krnl} {raw : Raw} (hraw : raw.mram = some krnl.mram)
    {a : Addr} {v : BitVec 8} (ha : krnl.ram.storage[(toAddr a).toNat]? = some v) (a3 : Addr) :
    syscall raw krnl.devs 17 ⟨4, a, a3⟩ = .ok (0, ⟨4, a, v.signExtend 64⟩, krnl.devs) := by
  show (memphyRead krnl.devs raw.mram (toAddr a) raw.value >>= fun res =>
    pure (0, (⟨4, a, res.2.1.signExtend 64⟩ : ScRegs), res.2.2)) = _
  rw [hraw, memphyRead, krnl.at_mram]
  dsimp only
  rw [read_ok krnl.random ha, ok_bind]
  dsimp only
  rw [← krnl.at_mram, Function.update_eq_self]
  rfl

/-- An address whose lower half is outside leaves the device. -/
theorem syscall_outside_right {krnl : Krnl} {raw : Raw} (hraw : raw.mram = some krnl.mram)
    {a : Addr} (ha : krnl.ram.storage.length ≤ (toAddr a).toNat) (a3 : Addr) :
    syscall raw krnl.devs 17 ⟨4, a, a3⟩ = .error .outOfBounds ∧
    syscall raw krnl.devs 17 ⟨5, a, a3⟩ = .error .outOfBounds := by
  constructor
  · show (memphyRead krnl.devs raw.mram (toAddr a) raw.value >>= fun res =>
      pure (0, (⟨4, a, res.2.1.signExtend 64⟩ : ScRegs), res.2.2)) = _
    rw [hraw, memphyRead, krnl.at_mram]
    dsimp only
    rw [read_error krnl.random ha]
    rfl
  · show (memphyWrite krnl.devs raw.mram (toAddr a) (a3.setWidth 8) >>= fun res =>
      pure (0, (⟨5, a, a3⟩ : ScRegs), res.2)) = _
    rw [hraw, memphyWrite, krnl.at_mram]
    dsimp only
    rw [write_error krnl.random ha]
    rfl

/-- The bytes that a signed register gives back as they are. -/
theorem signExtend_eq_setWidth_iff (v : BitVec 8) :
    v.signExtend 64 = v.setWidth 64 ↔ v.toNat < 128 := by
  constructor
  · intro h
    by_contra hge
    have hmsb : v.msb = true := by
      rw [BitVec.msb_eq_true_iff_two_mul_ge]
      omega
    have hbit := congrArg (BitVec.getLsbD · 63) h
    rw [BitVec.getLsbD_signExtend, BitVec.getLsbD_setWidth] at hbit
    simp [hmsb] at hbit
  · intro hlt
    have hmsb : v.msb = false := by
      rw [BitVec.msb_eq_false_iff_two_mul_lt]
      omega
    exact BitVec.signExtend_eq_setWidth_of_msb_false hmsb

/-- With the right pointer in both calls, a byte at an address with its lower half
inside the device reads back exactly if it is below 128. -/
theorem reads_back_right_iff {krnl : Krnl} {raw raw' : Raw} (hraw : raw.mram = some krnl.mram)
    (hraw' : raw'.mram = some krnl.mram) {a : Addr}
    (ha : (toAddr a).toNat < krnl.ram.storage.length)
    (v : BitVec 8) (a3 : Addr) :
    (∃ regs devs regs' devs',
      syscall raw krnl.devs 17 ⟨5, a, v.setWidth 64⟩ = .ok (0, regs, devs) ∧
      syscall raw' devs 17 ⟨4, a, a3⟩ = .ok (0, regs', devs') ∧ regs'.a3 = v.setWidth 64) ↔
    v.toNat < 128 := by
  obtain ⟨ram, hwrite, hstorage, hflag⟩ := syscall_write_right hraw ha v
  let krnl' : Krnl := ⟨Function.update krnl.devs krnl.mram (some ram), krnl.mram, ram,
    Function.update_self .., hflag⟩
  have hbyte : krnl'.ram.storage[(toAddr a).toNat]? = some v := by
    show ram.storage[(toAddr a).toNat]? = some v
    rw [hstorage, List.getElem?_set_self ha]
  have hpointer : raw'.mram = some krnl'.mram := hraw'
  have hread : syscall raw' krnl'.devs 17 ⟨4, a, a3⟩ =
      .ok (0, ⟨4, a, v.signExtend 64⟩, krnl'.devs) := syscall_read_right hpointer hbyte a3
  rw [← signExtend_eq_setWidth_iff]
  constructor
  · rintro ⟨regs, devs, regs', devs', hwrite', hread', ha3⟩
    rw [hwrite] at hwrite'
    cases hwrite'
    rw [hread] at hread'
    cases hread'
    exact ha3
  · intro hext
    exact ⟨_, _, _, _, hwrite, hread, hext⟩

/-! ## When the handler returns -/

/-- The pointer is null, or leads to a device that has a byte at the address or is
not random access. -/
def Reaches (devs : Devs) (mp : Option ℕ) (addr : Addr) : Prop :=
  ∀ p, mp = some p → ∃ dev, devs p = some dev ∧
    (dev.rdmflg ≠ 0 → addr.toNat < dev.storage.length)

/-- The operation is not the one on pages, and one on bytes gets to a byte. -/
def Returns (raw : Raw) (devs : Devs) (regs : ScRegs) : Prop :=
  (regs.a1.setWidth 32).toInt ≠ sysmemSwpOp ∧
    ((regs.a1.setWidth 32).toInt = sysmemIoRead ∨ (regs.a1.setWidth 32).toInt = sysmemIoWrite →
      Reaches devs raw.mram (toAddr regs.a2))

theorem reaches_null (devs : Devs) (addr : Addr) : Reaches devs none addr := by
  intro p hp
  cases hp

theorem not_reaches_wild {devs : Devs} {p : ℕ} (h : devs p = none) (addr : Addr) :
    ¬ Reaches devs (some p) addr := by
  intro hreach
  obtain ⟨dev, hdev, -⟩ := hreach p rfl
  cases h.symm.trans hdev

theorem reaches_iff {devs : Devs} {p : ℕ} {dev : MemphyDev} (h : devs p = some dev) (addr : Addr) :
    Reaches devs (some p) addr ↔ (dev.rdmflg ≠ 0 → addr.toNat < dev.storage.length) := by
  constructor
  · intro hreach
    obtain ⟨dev', hdev', hin⟩ := hreach p rfl
    cases h.symm.trans hdev'
    exact hin
  · rintro hin p' hp
    cases hp
    exact ⟨dev, h, hin⟩

/-- What a call through a pointer does, as far as it decides when it returns. -/
theorem returns_iff_reaches {α : Type} {call : Option ℕ → Except Fault α} {devs : Devs}
    {addr : Addr} (hnull : ∃ result, call none = .ok result)
    (hwild : ∀ p, devs p = none → call (some p) = .error .wildDeref)
    (hdev : ∀ p dev, devs p = some dev → ((∃ result, call (some p) = .ok result) ↔
      (dev.rdmflg ≠ 0 → addr.toNat < dev.storage.length))) (mp : Option ℕ) :
    (∃ result, call mp = .ok result) ↔ Reaches devs mp addr := by
  cases mp with
  | none => exact iff_of_true hnull (reaches_null devs addr)
  | some p =>
    cases h : devs p with
    | none =>
      rw [hwild p h]
      exact iff_of_false (fun ⟨_, hok⟩ => by cases hok) (not_reaches_wild h addr)
    | some dev => rw [hdev p dev h, reaches_iff h]

theorem memphyRead_returns_iff (devs : Devs) (mp : Option ℕ) (addr : Addr) (value : BitVec 8) :
    (∃ result, memphyRead devs mp addr value = .ok result) ↔ Reaches devs mp addr := by
  refine @returns_iff_reaches _ (memphyRead devs · addr value) devs addr ⟨_, rfl⟩
    (fun p h => ?_) (fun p dev h => ?_) mp
  · dsimp only [memphyRead]
    rw [h]
  · dsimp only [memphyRead]
    rw [h, ← read_returns_iff dev addr value]
    exact exists_bind_ok_iff fun _ => ⟨_, rfl⟩

theorem memphyWrite_returns_iff (devs : Devs) (mp : Option ℕ) (addr : Addr) (data : BitVec 8) :
    (∃ result, memphyWrite devs mp addr data = .ok result) ↔ Reaches devs mp addr := by
  refine @returns_iff_reaches _ (memphyWrite devs · addr data) devs addr ⟨_, rfl⟩
    (fun p h => ?_) (fun p dev h => ?_) mp
  · dsimp only [memphyWrite]
    rw [h]
  · dsimp only [memphyWrite]
    rw [h, ← write_returns_iff dev addr data]
    exact exists_bind_ok_iff fun _ => ⟨_, rfl⟩

/-- When the handler returns. -/
theorem sysMemmap_returns_iff (raw : Raw) (devs : Devs) (regs : ScRegs) :
    (∃ result, sysMemmap raw devs regs = .ok result) ↔ Returns raw devs regs := by
  unfold sysMemmap Returns
  generalize (regs.a1.setWidth 32).toInt = memop
  dsimp only
  split
  · next hmap =>
    refine iff_of_true ⟨_, rfl⟩ ⟨?_, ?_⟩
    · rcases hmap with rfl | rfl <;> decide
    · rintro (rfl | rfl)
      · exact absurd hmap (by decide)
      · exact absurd hmap (by decide)
  · split
    · next hswp =>
      refine iff_of_false (fun ⟨_, h⟩ => ?_) fun h => h.1 hswp
      cases h
    · next hswp =>
      split
      · next hread =>
        refine (exists_bind_ok_iff fun _ => ⟨_, rfl⟩).trans ?_
        rw [memphyRead_returns_iff]
        exact ⟨fun h => ⟨hswp, fun _ => h⟩, fun h => h.2 (.inl hread)⟩
      · next hread =>
        split
        · next hwrite =>
          refine (exists_bind_ok_iff fun _ => ⟨_, rfl⟩).trans ?_
          rw [memphyWrite_returns_iff]
          exact ⟨fun h => ⟨hswp, fun _ => h⟩, fun h => h.2 (.inr hwrite)⟩
        · next hwrite =>
          refine iff_of_true ⟨_, rfl⟩ ⟨hswp, fun h => ?_⟩
          exact (h.elim hread hwrite).elim

/-- When a system call returns. -/
theorem syscall_returns_iff (raw : Raw) (devs : Devs) (nr : BitVec 32) (regs : ScRegs) :
    (∃ result, syscall raw devs nr regs = .ok result) ↔ (nr = 17 → Returns raw devs regs) := by
  unfold syscall
  split
  · next hnr =>
    rw [sysMemmap_returns_iff]
    exact ⟨fun h _ => h, fun h => h hnr⟩
  · next hnr => exact iff_of_true ⟨_, rfl⟩ fun h => absurd h hnr

end SysMemmap

end SimpleOs
