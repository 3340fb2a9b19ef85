import SimpleOs.Access

/-!
# The index into the symbol table

The register of a memory instruction is an argument of 64 bits. It becomes a
`uint32_t` and then the `int` that `symrgtbl` is indexed with. `get_symrg_byid`
and `__free` refuse the index if it is negative or above `PAGING_MAX_SYMTBL_SZ`,
which lets the size of the table itself through. `__read` follows the null pointer
that `get_symrg_byid` returns, and `__alloc` does not look at the index at all.

Results:
1. `run_fault`: with an index in the table, an instruction faults in the list of
   areas or of pages only.
2. `guarded_iff`: which other indices are refused, instruction by instruction.
-/

namespace SimpleOs

namespace Libmem

open MmStruct Fifo

/-- A memory instruction with its arguments, each of type `arg_t`. -/
inductive MemIns
  | alloc (size reg : BitVec 64)
  | free (reg : BitVec 64)
  | read (reg offset : BitVec 64)
  | write (data reg offset : BitVec 64)

/-- The index that the instruction carries. -/
def MemIns.index : MemIns → BitVec 64
  | .alloc _ reg | .free reg | .read reg _ | .write _ reg _ => reg

/-- The index as the `uint32_t` that the library takes. -/
def MemIns.regIndex (ins : MemIns) : BitVec 32 :=
  ins.index.setWidth 32

/-- The instruction, as `run` executes it: the value that the library returns, and
the kernel. `data` is what the stack holds in the local of `libread`. -/
def MemIns.run (krnl : Krnl) (data : BitVec 8) : MemIns → Except Fault (ℤ × Krnl)
  | .alloc size reg => liballoc krnl size (reg.setWidth 32)
  | .free reg => libfree krnl (reg.setWidth 32)
  | .read reg offset =>
    (libread krnl (reg.setWidth 32) offset data).map fun (val, _, krnl) => (val, krnl)
  | .write data reg offset => libwrite krnl (data.setWidth 8) (reg.setWidth 32) offset

/-- The fault comes from the list of areas or of pages: there is no area, or none
with an id that is 0 or more, or `find_victim_page` meets a single page. -/
def Elsewhere (krnl : Krnl) (e : Fault) : Prop :=
  e = .nullDeref ∧
    ((∀ vma ∈ krnl.mm.mmap, vma.vmait < 0) ∨ krnl.mm.fifoPgn.length = 1)

/-- The symbol table is not left and no null region is followed: a call with an
index in the table faults elsewhere if it does, and one with another index returns
-1 and changes nothing. -/
structure Guarded (krnl : Krnl) (data : BitVec 8) (ins : MemIns) : Prop where
  inside : ins.index.toNat < pagingMaxSymtblSz →
    ∀ e, ins.run krnl data = .error e → Elsewhere krnl e
  outside : pagingMaxSymtblSz ≤ ins.index.toNat → ins.run krnl data = .ok (-1, krnl)

/-- The instruction is turned away: by the bound on the index, because the index
wraps to a register without a region, or because there is no area to write to. -/
def Refused (krnl : Krnl) (ins : MemIns) : Prop :=
  match ins with
  | .alloc _ _ | .read _ _ => False
  | .free _ =>
    pagingMaxSymtblSz < ins.regIndex.toNat ∨
      ∃ r : Fin pagingMaxSymtblSz, ins.regIndex.toNat = r ∧ krnl.mm.symrgtbl r = ⟨0, 0⟩
  | .write _ _ _ =>
    krnl.mm.mmap = [] ∨
      (∃ vma ∈ krnl.mm.mmap, 0 ≤ vma.vmait) ∧ pagingMaxSymtblSz < ins.regIndex.toNat

/-! ## Faults -/

theorem getVmaByNum_eq_error {krnl : Krnl} {e : Fault} (h : getVmaByNum krnl.mm 0 = .error e) :
    Elsewhere krnl e :=
  (getVmaByNum_fault h).imp_right .inl

theorem elsewhere_of_nil {krnl : Krnl} (h : krnl.mm.mmap = []) : Elsewhere krnl .nullDeref := by
  refine ⟨rfl, .inl fun vma hmem => ?_⟩
  rw [h] at hmem
  cases hmem

theorem mmap_eq_nil {krnl : Krnl} (h : getVmaByNum krnl.mm 0 = .ok none) : krnl.mm.mmap = [] := by
  by_contra hne
  obtain ⟨cur, hcur⟩ := getVmaByNum_eq_some hne h
  cases hcur

theorem pgAccess_eq_error {krnl : Krnl} {addr : BitVec 32} {e : Fault}
    (h : pgAccess krnl addr = .error e) : Elsewhere krnl e := by
  rcases bind_eq_error.mp h with hpage | ⟨⟨fpn, krnl'⟩, -, hret⟩
  · rw [pgGetpage_eq] at hpage
    cases hvictim : findVictim krnl.mm.fifoPgn with
    | error e' =>
      rw [hvictim] at hpage
      cases hpage
      exact (findVictim_eq_error hvictim).imp_right .inr
    | ok victim =>
      rw [hvictim] at hpage
      cases victim with
      | none => cases hpage
      | some victim =>
        dsimp only at hpage
        split at hpage <;> cases hpage
  · cases fpn <;> cases hret

section InTable

variable {krnl : Krnl} {reg : BitVec 32} {r : Fin pagingMaxSymtblSz} {e : Fault}

theorem liballoc_fault (hreg : reg.toNat = r) {size : Addr}
    (h : liballoc krnl size reg = .error e) : Elsewhere krnl e := by
  cases hvma : getVmaByNum krnl.mm 0 with
  | error e' =>
    cases (liballoc_error hvma).symm.trans h
    exact getVmaByNum_eq_error hvma
  | ok curVma =>
    cases curVma with
    | none =>
      cases (liballoc_null hvma).symm.trans h
      exact elsewhere_of_nil (mmap_eq_nil hvma)
    | some cur =>
      obtain ⟨rgnode, mm', harea⟩ := getFreeVmrgArea_ok hvma (size.setWidth 32)
      cases rgnode with
      | none => cases (liballoc_notFound hvma hreg harea).symm.trans h
      | some newrg => cases (liballoc_served hreg harea).symm.trans h

theorem libfree_fault (hreg : reg.toNat = r) (h : libfree krnl reg = .error e) :
    Elsewhere krnl e := by
  rcases eq_or_ne (krnl.mm.symrgtbl r) ⟨0, 0⟩ with hempty | hrg
  · cases (libfree_empty hreg hempty).symm.trans h
  · rw [libfree_region hreg hrg, map_eq_error] at h
    unfold enlistVmFreergList at h
    cases hmmap : krnl.mm.mmap with
    | nil =>
      simp only [hmmap] at h
      cases h
      exact elsewhere_of_nil hmmap
    | cons vma after =>
      simp only [hmmap] at h
      split at h <;> cases h

theorem libread_fault (hreg : reg.toNat = r) {offset : Addr} {data : BitVec 8}
    (h : libread krnl reg offset data = .error e) : Elsewhere krnl e := by
  rw [libread_inTable hreg, map_eq_error] at h
  exact pgAccess_eq_error h

theorem libwrite_fault (hreg : reg.toNat = r) {data : BitVec 8} {offset : Addr}
    (h : libwrite krnl data reg offset = .error e) : Elsewhere krnl e := by
  cases hvma : getVmaByNum krnl.mm 0 with
  | error e' =>
    cases (libwrite_error hvma).symm.trans h
    exact getVmaByNum_eq_error hvma
  | ok curVma =>
    cases curVma with
    | none => cases (libwrite_null hvma).symm.trans h
    | some cur =>
      rw [libwrite_inTable hvma hreg, map_eq_error] at h
      exact pgAccess_eq_error h

end InTable

/-- With an index in the table, an instruction faults elsewhere if it does. -/
theorem run_fault {krnl : Krnl} {data : BitVec 8} {ins : MemIns} {e : Fault}
    (hindex : ins.index.toNat < pagingMaxSymtblSz) (h : ins.run krnl data = .error e) :
    Elsewhere krnl e := by
  have hreg : (ins.index.setWidth 32).toNat = ins.index.toNat := by
    rw [BitVec.toNat_setWidth]
    exact Nat.mod_eq_of_lt (hindex.trans (by decide))
  let r : Fin pagingMaxSymtblSz := ⟨ins.index.toNat, hindex⟩
  cases ins with
  | alloc size reg => exact liballoc_fault (r := r) hreg h
  | free reg => exact libfree_fault (r := r) hreg h
  | read reg offset => exact libread_fault (r := r) hreg (map_eq_error.mp h)
  | write data reg offset => exact libwrite_fault (r := r) hreg h

/-! ## Refusals -/

/-- The library refuses to free a register above the table, or one without a
region. -/
theorem libfree_refused_iff (krnl : Krnl) (reg : BitVec 32) :
    libfree krnl reg = .ok (-1, krnl) ↔
      pagingMaxSymtblSz < reg.toNat ∨
        ∃ r : Fin pagingMaxSymtblSz, reg.toNat = r ∧ krnl.mm.symrgtbl r = ⟨0, 0⟩ := by
  rcases Nat.lt_trichotomy reg.toNat pagingMaxSymtblSz with hlt | heq | hgt
  · obtain ⟨r, hreg⟩ : ∃ r : Fin pagingMaxSymtblSz, reg.toNat = r := ⟨⟨_, hlt⟩, rfl⟩
    rcases eq_or_ne (krnl.mm.symrgtbl r) ⟨0, 0⟩ with hempty | hrg
    · exact iff_of_true (libfree_empty hreg hempty) (.inr ⟨r, hreg, hempty⟩)
    · refine iff_of_false (fun hret => ?_) ?_
      · rw [libfree_region hreg hrg, map_eq_ok] at hret
        obtain ⟨res, -, heq⟩ := hret
        cases heq
      · rintro (hgt | ⟨r', hreg', hempty⟩)
        · exact absurd hgt hlt.not_gt
        · cases Fin.ext (hreg.symm.trans hreg')
          exact hrg hempty
  · refine iff_of_false (fun hret => ?_) ?_
    · cases (libfree_behind heq).symm.trans hret
    · rintro (hgt | ⟨r, hr, -⟩)
      · exact absurd hgt heq.not_gt
      · exact absurd (hr ▸ r.isLt) heq.not_lt
  · exact iff_of_true (libfree_outside hgt) (.inl hgt)

theorem libwrite_refused_iff (krnl : Krnl) (data : BitVec 8) (reg : BitVec 32) (offset : Addr) :
    libwrite krnl data reg offset = .ok (-1, krnl) ↔
      krnl.mm.mmap = [] ∨ (∃ vma ∈ krnl.mm.mmap, 0 ≤ vma.vmait) ∧
        pagingMaxSymtblSz < reg.toNat := by
  constructor
  · intro hret
    rcases eq_or_ne krnl.mm.mmap [] with hnil | hne
    · exact .inl hnil
    · refine .inr ⟨?_, ?_⟩
      · by_contra hnone
        push Not at hnone
        cases (libwrite_error_of_vmait hne hnone data reg offset).symm.trans hret
      · rw [← toInt_outside_iff]
        by_contra hin
        exact absurd (returnsZero_libwrite hin hne hret) (by decide)
  · intro hcond
    rw [← toInt_outside_iff] at hcond
    exact libwrite_refused hcond offset data

/-- The table is guarded exactly where the index is in it, or the instruction is
turned away. -/
theorem guarded_iff (krnl : Krnl) (data : BitVec 8) (ins : MemIns) :
    Guarded krnl data ins ↔ ins.index.toNat < pagingMaxSymtblSz ∨ Refused krnl ins := by
  have hrefused : ins.run krnl data = .ok (-1, krnl) ↔ Refused krnl ins := by
    cases ins with
    | alloc size reg =>
      exact iff_of_false (fun hret => absurd (liballoc_eq_ok hret).1 (by decide)) id
    | free reg => exact libfree_refused_iff krnl _
    | read reg offset =>
      refine iff_of_false (fun hret => ?_) id
      obtain ⟨⟨val, destination, krnl'⟩, hread, heq⟩ := map_eq_ok.mp hret
      cases heq
      exact absurd (returnsZero_libread hread) (by decide)
    | write data' reg offset => exact libwrite_refused_iff krnl _ _ offset
  rw [← hrefused]
  constructor
  · intro hguard
    rcases Nat.lt_or_ge ins.index.toNat pagingMaxSymtblSz with hlt | hge
    · exact .inl hlt
    · exact .inr (hguard.outside hge)
  · intro hcond
    refine ⟨fun hlt e => run_fault hlt, fun hge => hcond.resolve_left hge.not_gt⟩

/-- ALLOC, FREE and WRITE of register 30 index the table behind its end, READ of
register 31 follows a null pointer. -/
theorem not_guarded_outside :
    ¬ Guarded bareKrnl 0 (.alloc 8 30) ∧ ¬ Guarded bareKrnl 0 (.free 30) ∧
      ¬ Guarded bareKrnl 0 (.read 31 0) ∧ ¬ Guarded bareKrnl 0 (.write 0 30 0) := by
  have halloc : (MemIns.alloc 8 30).run bareKrnl 0 = .error .outOfBounds := rfl
  have hfree : (MemIns.free 30).run bareKrnl 0 = .error .outOfBounds := rfl
  have hread : (MemIns.read 31 0).run bareKrnl 0 = .error .nullDeref := rfl
  have hwrite : (MemIns.write 0 30 0).run bareKrnl 0 = .error .outOfBounds := rfl
  refine ⟨fun h => ?_, fun h => ?_, fun h => ?_, fun h => ?_⟩
  · cases halloc.symm.trans (h.outside (by decide))
  · cases hfree.symm.trans (h.outside (by decide))
  · cases hread.symm.trans (h.outside (by decide))
  · cases hwrite.symm.trans (h.outside (by decide))

end Libmem

end SimpleOs
