import SimpleOs.Libmem

/-!
# Reading and writing through a register

`libread` and `libwrite` take a register and an offset. They should fail, with a
code other than 0, unless the register names an allocated region, the offset lies
in it and the page can be had. `__read` and `__write` never compare the offset
with the region, never ask whether the region is allocated, and drop the code of
`pg_getval` and `pg_setval`; the bound on the register lets the index 30 through,
and `__read` follows the null pointer that stands for the others.

Results:
1. `libread_served`, `libwrite_served`: an access that ought to succeed returns 0.
2. `returnsZero_libread`, `returnsZero_libwrite`: so do all others that return,
   up to the two tests that `__write` makes.
3. `access_reported_iff`: for which states, registers and offsets the two
   functions report what they should.
-/

namespace SimpleOs

namespace Libmem

open MmStruct

/-- The access ought to succeed: the register names an allocated region, the
offset lies in it, and `pg_getpage` succeeds for the page. -/
def Allowed (krnl : Krnl) (reg : BitVec 32) (offset : Addr) : Prop :=
  ∃ r : Fin pagingMaxSymtblSz, reg.toNat = r ∧
    let rg := krnl.mm.symrgtbl r
    ¬ (rg.rgStart = 0 ∧ rg.rgEnd = 0) ∧ offset < rg.rgEnd - rg.rgStart ∧
    ∃ fpn krnl', pgGetpage krnl (Translation.pagingPgn ((rg.rgStart + offset).setWidth 32)) =
      .ok (some fpn, krnl')

/-- What `Allowed` asks of the register, the offset and the state: an allocated
region with the offset in it, a page FIFO of two pages or more, and a free swap
frame. -/
def Served (krnl : Krnl) (reg : BitVec 32) (offset : Addr) : Prop :=
  (∃ r : Fin pagingMaxSymtblSz, reg.toNat = r ∧
    let rg := krnl.mm.symrgtbl r
    ¬ (rg.rgStart = 0 ∧ rg.rgEnd = 0) ∧ offset < rg.rgEnd - rg.rgStart) ∧
  2 ≤ krnl.mm.fifoPgn.length ∧ krnl.activeMswp.freeFpList ≠ []

/-- `libread` returns, and if the access ought to fail, with a code other than 0
and the destination as it was. -/
def LibreadReports (krnl : Krnl) (source : BitVec 32) (offset : Addr) (data : BitVec 8)
    (destination : BitVec 32) : Prop :=
  ∃ val destination' krnl', libread krnl source offset data = .ok (val, destination', krnl') ∧
    (¬ Allowed krnl source offset → val ≠ 0 ∧ destination' = destination)

/-- `libwrite` returns, and if the access ought to fail, with a code other than
0. -/
def LibwriteReports (krnl : Krnl) (data : BitVec 8) (destination : BitVec 32) (offset : Addr) :
    Prop :=
  ∃ val krnl', libwrite krnl data destination offset = .ok (val, krnl') ∧
    (¬ Allowed krnl destination offset → val ≠ 0)

/-! ## Accesses that ought to succeed -/

theorem pgAccess_of_getpage {krnl krnl' : Krnl} {addr fpn : BitVec 32}
    (h : pgGetpage krnl (Translation.pagingPgn addr) = .ok (some fpn, krnl')) :
    pgAccess krnl addr = .ok (0, krnl') := by
  unfold pgAccess
  rw [h]
  rfl

theorem libread_served {krnl : Krnl} {source : BitVec 32} {offset : Addr}
    (h : Allowed krnl source offset) (data : BitVec 8) :
    ∃ krnl', libread krnl source offset data = .ok (0, data.signExtend 32, krnl') := by
  obtain ⟨r, hreg, -, -, fpn, krnl', hpage⟩ := h
  exact ⟨krnl', libread_eq_ok_iff.mpr ⟨rfl, rfl, r, hreg, 0, pgAccess_of_getpage hpage⟩⟩

theorem libwrite_served {krnl : Krnl} {destination : BitVec 32} {offset : Addr}
    (h : Allowed krnl destination offset) (hvma : ∃ vma ∈ krnl.mm.mmap, 0 ≤ vma.vmait)
    (data : BitVec 8) :
    ∃ krnl', libwrite krnl data destination offset = .ok (0, krnl') := by
  obtain ⟨r, hreg, -, -, fpn, krnl', hpage⟩ := h
  obtain ⟨cur, hcur⟩ := getVmaByNum_ok hvma
  have haccess : pgAccess krnl (accessAddr krnl.mm r offset) = .ok (0, krnl') :=
    pgAccess_of_getpage hpage
  refine ⟨krnl', ?_⟩
  rw [libwrite_inTable hcur hreg, haccess]
  rfl

/-! ## All accesses -/

/-- `libread` returns 0 whenever it returns. -/
theorem returnsZero_libread {krnl krnl' : Krnl} {source destination : BitVec 32} {offset : Addr}
    {data : BitVec 8} {val : ℤ}
    (h : libread krnl source offset data = .ok (val, destination, krnl')) : val = 0 :=
  (libread_eq_ok_iff.mp h).1

/-- Getting a page faults exactly if one page is listed. -/
theorem pgAccess_returns_iff (krnl : Krnl) (addr : BitVec 32) :
    (∃ result, pgAccess krnl addr = .ok result) ↔ krnl.mm.fifoPgn.length ≠ 1 := by
  unfold pgAccess
  rw [pgGetpage_eq]
  cases hvictim : Fifo.findVictim krnl.mm.fifoPgn with
  | error e =>
    refine iff_of_false ?_ (not_not.mpr (Fifo.findVictim_eq_error hvictim).2)
    rintro ⟨result, h⟩
    cases h
  | ok victim =>
    refine iff_of_true ?_ fun hone => ?_
    · cases victim with
      | none => exact ⟨_, rfl⟩
      | some victim =>
        cases krnl.activeMswp.getFreefp with
        | none => exact ⟨_, rfl⟩
        | some frame => exact ⟨_, rfl⟩
    · obtain ⟨pgn, hpgn⟩ := List.length_eq_one_iff.mp hone
      rw [hpgn, Fifo.findVictim_singleton] at hvictim
      cases hvictim

/-- `libread` returns exactly for a register in the table, unless one page is
listed. -/
theorem libread_returns_iff (krnl : Krnl) (source : BitVec 32) (offset : Addr)
    (data : BitVec 8) :
    (∃ result, libread krnl source offset data = .ok result) ↔
      source.toNat < pagingMaxSymtblSz ∧ krnl.mm.fifoPgn.length ≠ 1 := by
  constructor
  · rintro ⟨⟨val, destination, krnl'⟩, h⟩
    obtain ⟨-, -, r, hreg, val', hpage⟩ := libread_eq_ok_iff.mp h
    exact ⟨hreg ▸ r.isLt, (pgAccess_returns_iff krnl _).mp ⟨_, hpage⟩⟩
  · rintro ⟨hlt, hlist⟩
    obtain ⟨r, hreg⟩ : ∃ r : Fin pagingMaxSymtblSz, source.toNat = r := ⟨⟨_, hlt⟩, rfl⟩
    obtain ⟨⟨val', krnl'⟩, hpage⟩ := (pgAccess_returns_iff krnl _).mpr hlist
    exact ⟨_, libread_eq_ok_iff.mpr ⟨rfl, rfl, r, hreg, val', hpage⟩⟩

/-- `libwrite` returns where there is no area at all; otherwise there must be one for
the id 0, and the register is refused or in the table, unless one page is listed. -/
theorem libwrite_returns_iff (krnl : Krnl) (data : BitVec 8) (destination : BitVec 32)
    (offset : Addr) :
    (∃ result, libwrite krnl data destination offset = .ok result) ↔
      krnl.mm.mmap = [] ∨ (∃ vma ∈ krnl.mm.mmap, 0 ≤ vma.vmait) ∧
        (pagingMaxSymtblSz < destination.toNat ∨
          destination.toNat < pagingMaxSymtblSz ∧ krnl.mm.fifoPgn.length ≠ 1) := by
  rcases eq_or_ne krnl.mm.mmap [] with hnil | hne
  · exact iff_of_true ⟨_, libwrite_null (getVmaByNum_nil hnil 0)⟩ (.inl hnil)
  · rw [or_iff_right hne, ← exists_getVmaByNum_iff]
    constructor
    · rintro ⟨⟨val, krnl'⟩, h⟩
      cases hvma : getVmaByNum krnl.mm 0 with
      | error e => cases (libwrite_error hvma).symm.trans h
      | ok curVma =>
        obtain ⟨cur, rfl⟩ := getVmaByNum_eq_some hne hvma
        refine ⟨⟨cur, rfl⟩, ?_⟩
        rcases libwrite_eq_ok h with ⟨-, -, hnull | hgt⟩ | ⟨-, r, hreg, val', hpage⟩
        · cases hvma.symm.trans hnull
        · exact .inl hgt
        · exact .inr ⟨hreg ▸ r.isLt, (pgAccess_returns_iff krnl _).mp ⟨_, hpage⟩⟩
    · rintro ⟨⟨cur, hcur⟩, hgt | ⟨hlt, hlist⟩⟩
      · exact ⟨_, libwrite_outside hcur hgt⟩
      · obtain ⟨r, hreg⟩ : ∃ r : Fin pagingMaxSymtblSz, destination.toNat = r := ⟨⟨_, hlt⟩, rfl⟩
        obtain ⟨_, hpage⟩ :=
          (pgAccess_returns_iff krnl (accessAddr krnl.mm r offset)).mpr hlist
        rw [libwrite_inTable hcur hreg, hpage]
        exact ⟨_, rfl⟩

/-- `libwrite` of a register in the table: 0 if it returns. -/
theorem returnsZero_libwrite {krnl krnl' : Krnl} {destination : BitVec 32} {offset : Addr}
    {data : BitVec 8} {val : ℤ} (hreg : ¬ (destination.toInt < 0 ∨ destination.toInt > 30))
    (hmmap : krnl.mm.mmap ≠ [])
    (h : libwrite krnl data destination offset = .ok (val, krnl')) : val = 0 := by
  rcases libwrite_eq_ok h with ⟨-, -, hnull | hgt⟩ | ⟨hval, -⟩
  · obtain ⟨cur, hcur⟩ := getVmaByNum_eq_some hmmap hnull
    cases hcur
  · exact absurd ((toInt_outside_iff destination).mpr hgt) hreg
  · exact hval

/-- The two tests that `__write` makes. -/
theorem libwrite_refused {krnl : Krnl} {destination : BitVec 32}
    (h : krnl.mm.mmap = [] ∨ (∃ vma ∈ krnl.mm.mmap, 0 ≤ vma.vmait) ∧
      (destination.toInt < 0 ∨ destination.toInt > 30)) (offset : Addr) (data : BitVec 8) :
    libwrite krnl data destination offset = .ok (-1, krnl) := by
  rcases h with hmmap | ⟨hvma, hreg⟩
  · exact libwrite_null (getVmaByNum_nil hmmap 0)
  · obtain ⟨cur, hcur⟩ := getVmaByNum_ok hvma
    exact libwrite_outside hcur ((toInt_outside_iff destination).mp hreg)

/-- No area has an id that is 0 or more as an `int`: `__write` runs off the list. -/
theorem libwrite_error_of_vmait {krnl : Krnl} (hmmap : krnl.mm.mmap ≠ [])
    (h : ∀ vma ∈ krnl.mm.mmap, vma.vmait < 0) (data : BitVec 8) (destination : BitVec 32)
    (offset : Addr) : libwrite krnl data destination offset = .error .nullDeref :=
  libwrite_error (getVmaByNum_error hmmap h)

theorem allowed_iff_served (krnl : Krnl) (reg : BitVec 32) (offset : Addr) :
    Allowed krnl reg offset ↔ Served krnl reg offset := by
  constructor
  · rintro ⟨r, hreg, halloc, hoffset, hpage⟩
    exact ⟨⟨r, hreg, halloc, hoffset⟩, (pgGetpage_eq_some_iff krnl _).mp hpage⟩
  · rintro ⟨⟨r, hreg, halloc, hoffset⟩, hpage⟩
    exact ⟨r, hreg, halloc, hoffset, (pgGetpage_eq_some_iff krnl _).mpr hpage⟩

theorem libreadReports_iff (krnl : Krnl) (source : BitVec 32) (offset : Addr) (data : BitVec 8)
    (destination : BitVec 32) :
    LibreadReports krnl source offset data destination ↔ Allowed krnl source offset := by
  constructor
  · rintro ⟨val, destination', krnl', hread, hreport⟩
    by_contra hnot
    exact (hreport hnot).1 (returnsZero_libread hread)
  · intro h
    obtain ⟨krnl', hread⟩ := libread_served h data
    exact ⟨0, _, krnl', hread, fun hnot => absurd h hnot⟩

theorem libwriteReports_iff (krnl : Krnl) (data : BitVec 8) (destination : BitVec 32)
    (offset : Addr) :
    LibwriteReports krnl data destination offset ↔
      krnl.mm.mmap = [] ∨ (∃ vma ∈ krnl.mm.mmap, 0 ≤ vma.vmait) ∧
        (destination.toInt < 0 ∨ destination.toInt > 30 ∨ Allowed krnl destination offset) := by
  constructor
  · rintro ⟨val, krnl', hwrite, hreport⟩
    by_cases hmmap : krnl.mm.mmap = []
    · exact .inl hmmap
    refine .inr ⟨?_, ?_⟩
    · by_contra hvma
      push Not at hvma
      rw [libwrite_error_of_vmait hmmap hvma] at hwrite
      cases hwrite
    · by_cases hreg : destination.toInt < 0 ∨ destination.toInt > 30
      · exact hreg.imp id .inl
      refine .inr (.inr ?_)
      by_contra hnot
      exact hreport hnot (returnsZero_libwrite hreg hmmap hwrite)
  · rintro (hmmap | ⟨hvma, hreg⟩)
    · exact ⟨-1, krnl, libwrite_refused (.inl hmmap) offset data, fun _ => by decide⟩
    · rw [← or_assoc] at hreg
      rcases hreg with hreg | h
      · exact ⟨-1, krnl, libwrite_refused (.inr ⟨hvma, hreg⟩) offset data, fun _ => by decide⟩
      · obtain ⟨krnl', hwrite⟩ := libwrite_served h hvma data
        exact ⟨0, krnl', hwrite, fun hnot => absurd h hnot⟩

/-- `libread` reports what it should exactly if the access ought to succeed.
`libwrite` does so also where it finds no vm area at all, or an area and a
register that is negative or above 30 as an `int`. -/
theorem access_reported_iff (krnl : Krnl) (reg : BitVec 32) (offset : Addr) (data : BitVec 8)
    (destination : BitVec 32) :
    (LibreadReports krnl reg offset data destination ↔ Served krnl reg offset) ∧
    (LibwriteReports krnl data reg offset ↔
      krnl.mm.mmap = [] ∨ (∃ vma ∈ krnl.mm.mmap, 0 ≤ vma.vmait) ∧
        (reg.toInt < 0 ∨ reg.toInt > 30 ∨ Served krnl reg offset)) := by
  rw [← allowed_iff_served]
  exact ⟨libreadReports_iff krnl reg offset data destination,
    libwriteReports_iff krnl data reg offset⟩

/-- Register 3 was never allocated. Reading it returns 0 and overwrites the
destination, writing it returns 0. -/
theorem access_never_allocated :
    ¬ LibreadReports bareKrnl 3 0 90 7 ∧ ¬ LibwriteReports bareKrnl 90 3 0 := by
  have hnot : ¬ Allowed bareKrnl 3 0 := by
    rintro ⟨r, -, halloc, -⟩
    exact halloc ⟨rfl, rfl⟩
  have hread : libread bareKrnl 3 0 90 = .ok (0, 90, bareKrnl) := rfl
  have hwrite : libwrite bareKrnl 90 3 0 = .ok (0, bareKrnl) := rfl
  constructor
  · rintro ⟨val, destination', krnl', h, hreport⟩
    rw [hread] at h
    cases h
    exact (hreport hnot).1 rfl
  · rintro ⟨val, krnl', h, hreport⟩
    rw [hwrite] at h
    cases h
    exact hreport hnot rfl

end Libmem

end SimpleOs
