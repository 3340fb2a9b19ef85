import SimpleOs.Mm
import SimpleOs.Lib.Cover
import SimpleOs.Lib.LinkedList

/-!
# Carving a region out of the free list

`get_free_vmrg_area` takes the first free region that is large enough. If bytes
are left over, the node keeps them; if not, the node becomes a copy of the next
one, which is freed, and at the end of the list it stays as a region with no
byte in it. The list may hold such regions from earlier calls.

Results:
1. `takeFreergNodes_refines`: the loop over the nodes in memory does what
   `takeFreerg` does to the list.
2. `mult_takeFreerg`: every byte is covered as often by the region taken and the
   list that is left as by the list before.
3. `getFreeVmrgArea_carves`: the call takes exactly the first region that fits,
   for any list of regions that do not overlap.
-/

namespace SimpleOs

namespace MmStruct

open Cover LinkedList

/-- The bytes that the regions cover. -/
def covered (rgs : List VmRg) : Set ℕ :=
  Cover.union (rgs.map VmRg.bytes)

/-- The regions that have a byte. -/
def nonempty (rgs : List VmRg) : List VmRg :=
  rgs.filter fun rg => rg.rgStart < rg.rgEnd

/-- The region has room for `size` bytes, as the loop tests it. -/
abbrev HasRoom (size : Addr) (rg : VmRg) : Prop :=
  rg.rgStart + size ≤ rg.rgEnd

/-! ## The loop in memory -/

/-- The loop of `get_free_vmrg_area` from the node `rgit` on: the region taken,
if any, and the nodes after it. -/
def takeFreergNodes (size : Addr) :
    ℕ → Heap VmRg → Option ℕ → Except Fault (Option VmRg × Heap VmRg)
  | 0, _, _ => .error .outOfFuel
  | _ + 1, heap, none => .ok (none, heap)
  | fuel + 1, heap, some rgit =>
    match heap rgit with
    | none => .error .wildDeref
    | some node =>
      let rg := node.val
      if rg.rgStart + size ≤ rg.rgEnd then
        let newrg : VmRg := ⟨rg.rgStart, rg.rgStart + size⟩
        if rg.rgStart + size < rg.rgEnd then
          let rest := { rg with rgStart := rg.rgStart + size }
          .ok (some newrg, Function.update heap rgit (some { node with val := rest }))
        else
          match node.next with
          | some nextrg =>
            match heap nextrg with
            | none => .error .wildDeref
            | some nextNode =>
              let heap := Function.update heap rgit (some nextNode)
              .ok (some newrg, Function.update heap nextrg none)
          | none =>
            let dummy : VmRg := ⟨rg.rgEnd, rg.rgEnd⟩
            .ok (some newrg, Function.update heap rgit (some ⟨dummy, none⟩))
      else takeFreergNodes size fuel heap node.next

/-- The outcome of the loop in memory is that of the loop over the list. -/
def Refines (p : Option ℕ) (heap : Heap VmRg) (front : List VmRg)
    (taken : Option (VmRg × List VmRg)) (result : Except Fault (Option VmRg × Heap VmRg)) : Prop :=
  match taken with
  | none => result = .ok (none, heap)
  | some (newrg, freergs) =>
    ∃ heap' cells, result = .ok (some newrg, heap') ∧ Linked heap' p cells ∧
      cells.map Prod.snd = front ++ freergs

theorem takeFreergNodes_refines_from {size : Addr} {fuel : ℕ} {heap : Heap VmRg} {p : Option ℕ}
    {front cells : List (ℕ × VmRg)} {rgit : Option ℕ} (hlinked : Linked heap p (front ++ cells))
    (hchain : Chain heap rgit cells none) (hfuel : cells.length < fuel) :
    Refines p heap (front.map Prod.snd) (takeFreerg size (cells.map Prod.snd))
      (takeFreergNodes size fuel heap rgit) := by
  obtain ⟨fuel, rfl⟩ := Nat.exists_eq_add_one_of_ne_zero (Nat.ne_zero_of_lt hfuel)
  induction cells generalizing fuel front rgit with
  | nil =>
    have hend : rgit = none := hchain
    subst hend
    rfl
  | cons cell cells ih =>
    obtain ⟨a, rg⟩ := cell
    obtain ⟨rfl, next, hnode, hrest⟩ := hchain
    rw [List.map_cons, takeFreerg, takeFreergNodes, hnode]
    dsimp only
    split
    · split
      -- The node keeps the bytes that are left.
      · obtain ⟨next', hnode', -, hset⟩ :=
          hlinked.setVal { rg with rgStart := rg.rgStart + size }
        rw [hnode] at hnode'
        cases hnode'
        exact ⟨_, _, rfl, hset, by simp⟩
      · cases cells with
        | nil =>
          have hend : next = none := hrest
          subst hend
          obtain ⟨next', hnode', hend', hset⟩ := hlinked.setVal ⟨rg.rgEnd, rg.rgEnd⟩
          have hend'' : next' = none := hend'
          subst hend''
          exact ⟨_, _, rfl, hset, by simp⟩
        | cons cell cells =>
          obtain ⟨b, rg'⟩ := cell
          obtain ⟨next', hnode', hnext, hclone⟩ := hlinked.cloneNext
          rw [hnode] at hnode'
          cases hnode'
          dsimp only
          rw [hnext]
          exact ⟨_, _, rfl, hclone, by simp⟩
    · have hfuel' : cells.length < fuel := Nat.lt_of_succ_lt_succ hfuel
      obtain ⟨fuel, rfl⟩ := Nat.exists_eq_add_one_of_ne_zero (Nat.ne_zero_of_lt hfuel')
      have hlinked' : Linked heap p ((front ++ [(a, rg)]) ++ cells) := by simpa using hlinked
      have hih := ih hlinked' hrest fuel hfuel'
      cases htake : takeFreerg size (cells.map Prod.snd) with
      | none =>
        rw [htake] at hih
        exact hih
      | some taken =>
        rw [htake] at hih
        obtain ⟨heap', cells', hresult, hlinked', hcells'⟩ := hih
        exact ⟨heap', cells', hresult, hlinked', by simpa using hcells'⟩

/-- On a list in memory with enough fuel for its nodes, the loop returns, keeps
the memory if no region fits, and leaves the list that `takeFreerg` computes. -/
theorem takeFreergNodes_refines {size : Addr} {fuel : ℕ} {heap : Heap VmRg} {p : Option ℕ}
    {cells : List (ℕ × VmRg)} (hlinked : Linked heap p cells) (hfuel : cells.length < fuel) :
    Refines p heap [] (takeFreerg size (cells.map Prod.snd))
      (takeFreergNodes size fuel heap p) := by
  have hlinked' : Linked heap p ([] ++ cells) := hlinked
  exact takeFreergNodes_refines_from hlinked' hlinked.chain hfuel

/-! ## The loop over the list -/

/-- What is left where the region `rg` was, with the regions behind it. -/
def leftover (size : Addr) (rg : VmRg) (back : List VmRg) : List VmRg :=
  if rg.rgStart + size < rg.rgEnd then { rg with rgStart := rg.rgStart + size } :: back
  else
    match back with
    | [] => [⟨rg.rgEnd, rg.rgEnd⟩]
    | nextrg :: rest => nextrg :: rest

theorem takeFreerg_eq_none_iff {size : Addr} {rgs : List VmRg} :
    takeFreerg size rgs = none ↔ ∀ rg ∈ rgs, ¬ HasRoom size rg := by
  induction rgs with
  | nil => simp [takeFreerg]
  | cons rg rgs ih =>
    rw [takeFreerg, List.forall_mem_cons, ← ih]
    by_cases hroom : HasRoom size rg
    · rw [if_pos hroom]
      split
      · simp [hroom]
      · split <;> simp [hroom]
    · rw [if_neg hroom, Option.map_eq_none_iff]
      exact (and_iff_right hroom).symm

/-- The first region with room is taken. -/
theorem takeFreerg_append {size : Addr} {front : List VmRg} {rg : VmRg} (back : List VmRg)
    (hfront : ∀ rg' ∈ front, ¬ HasRoom size rg') (hroom : HasRoom size rg) :
    takeFreerg size (front ++ rg :: back) =
      some (⟨rg.rgStart, rg.rgStart + size⟩, front ++ leftover size rg back) := by
  induction front with
  | nil =>
    rw [List.nil_append, takeFreerg, if_pos hroom]
    unfold leftover
    dsimp only
    split
    · rfl
    · cases back <;> rfl
  | cons rg' front ih =>
    obtain ⟨hrg', hfront⟩ := List.forall_mem_cons.mp hfront
    rw [List.cons_append, takeFreerg, if_neg hrg', ih hfront]
    rfl

theorem takeFreerg_eq_some {size : Addr} {rgs freergs : List VmRg} {newrg : VmRg}
    (h : takeFreerg size rgs = some (newrg, freergs)) :
    ∃ front rg back, rgs = front ++ rg :: back ∧ (∀ rg' ∈ front, ¬ HasRoom size rg') ∧
      HasRoom size rg ∧ newrg = ⟨rg.rgStart, rg.rgStart + size⟩ ∧
      freergs = front ++ leftover size rg back := by
  have hsome : ¬ ∀ rg ∈ rgs, ¬ HasRoom size rg := by
    intro hnone
    rw [takeFreerg_eq_none_iff.mpr hnone] at h
    cases h
  have hfind : (rgs.find? fun rg => HasRoom size rg) ≠ none := by
    simpa [List.find?_eq_none] using hsome
  obtain ⟨rg, hrg⟩ := Option.ne_none_iff_exists'.mp hfind
  obtain ⟨hroom, front, back, rfl, hfront⟩ := List.find?_eq_some_iff_append.mp hrg
  have hroom' : HasRoom size rg := by simpa using hroom
  have hfront' : ∀ rg' ∈ front, ¬ HasRoom size rg' := by simpa using hfront
  rw [takeFreerg_append back hfront' hroom'] at h
  cases h
  exact ⟨front, rg, back, rfl, hfront', hroom', rfl, rfl⟩

theorem length_leftover_le (size : Addr) (rg : VmRg) (back : List VmRg) :
    (leftover size rg back).length ≤ (rg :: back).length := by
  unfold leftover
  split
  · exact le_rfl
  · cases back with
    | nil => exact le_rfl
    | cons nextrg rest => exact Nat.le_succ _

/-- Of the region itself, its last bytes are left. -/
theorem nonempty_leftover (size : Addr) (rg : VmRg) (back : List VmRg) :
    nonempty (leftover size rg back) =
      nonempty [⟨rg.rgStart + size, rg.rgEnd⟩] ++ nonempty back := by
  unfold leftover
  split
  · next hlt => simp [nonempty, hlt]
  · next hlt => cases back <;> simp [nonempty, hlt]

theorem mult_nonempty (rgs : List VmRg) (b : ℕ) :
    mult ((nonempty rgs).map VmRg.bytes) b = mult (rgs.map VmRg.bytes) b := by
  induction rgs with
  | nil => rfl
  | cons rg rgs ih =>
    rw [List.map_cons, mult_cons, ← ih, nonempty, List.filter_cons]
    split
    · rw [List.map_cons, mult_cons]
      rfl
    · next hempty =>
      have hbytes : rg.bytes = ∅ := Set.Ico_eq_empty (by simpa [BitVec.lt_def] using hempty)
      rw [hbytes, mult_singleton_empty, Nat.zero_add]
      rfl

/-- The region taken and what is left of its region cover that region. -/
theorem mult_leftover {size : Addr} {rg : VmRg} (hroom : HasRoom size rg)
    (hwrap : rg.rgStart.toNat + size.toNat < 2 ^ 64) (back : List VmRg) (b : ℕ) :
    mult ((rg :: back).map VmRg.bytes) b =
      mult [VmRg.bytes ⟨rg.rgStart, rg.rgStart + size⟩] b +
        mult ((leftover size rg back).map VmRg.bytes) b := by
  have hsum : (rg.rgStart + size).toNat = rg.rgStart.toNat + size.toNat := by
    rw [BitVec.toNat_add, Nat.mod_eq_of_lt hwrap]
  have hstart : rg.rgStart.toNat ≤ (rg.rgStart + size).toNat := hsum ▸ Nat.le_add_right _ _
  have hcut : mult [rg.bytes] b = mult [VmRg.bytes ⟨rg.rgStart, rg.rgStart + size⟩] b +
      mult [VmRg.bytes ⟨rg.rgStart + size, rg.rgEnd⟩] b :=
    mult_Ico_append hstart (BitVec.le_def.mp hroom)
  rw [← mult_nonempty (leftover size rg back), nonempty_leftover, List.map_append,
    mult_append, mult_nonempty, mult_nonempty, List.map_cons, mult_cons, hcut, Nat.add_assoc]
  rfl

/-- No byte is lost or doubled when a region is taken. -/
theorem mult_takeFreerg {size : Addr} {rgs freergs : List VmRg} {newrg : VmRg}
    (h : takeFreerg size rgs = some (newrg, freergs))
    (hwrap : newrg.rgStart.toNat + size.toNat < 2 ^ 64) (b : ℕ) :
    mult (rgs.map VmRg.bytes) b =
      mult [newrg.bytes] b + mult (freergs.map VmRg.bytes) b := by
  obtain ⟨front, rg, back, rfl, -, hroom, rfl, rfl⟩ := takeFreerg_eq_some h
  rw [List.map_append, List.map_append, mult_append, mult_append, mult_leftover hroom hwrap]
  exact Nat.add_left_comm _ _ _

/-! ## The call -/

/-- The region holds `size` bytes. -/
def Fits (size : ℕ) (rg : VmRg) : Prop :=
  size ≤ rg.rgEnd.toNat - rg.rgStart.toNat

/-- The list `old` gave up its first region that fits, or the first bytes of it,
as `newrg`, and became `new`. -/
structure Carves (size : ℕ) (old : List VmRg) (newrg : VmRg) (new : List VmRg) : Prop where
  /-- The regions around the one that was taken from, and what was taken. -/
  exact : ∃ front rg back, old = front ++ rg :: back ∧ (∀ rg' ∈ front, ¬ Fits size rg') ∧
    Fits size rg ∧ newrg.bytes = Set.Ico rg.rgStart.toNat (rg.rgStart.toNat + size) ∧
    newrg.rgStart = rg.rgStart ∧
    -- The regions with a byte: the others stay, the last bytes of `rg` stay.
    nonempty new = nonempty front ++ nonempty [⟨newrg.rgEnd, rg.rgEnd⟩] ++ nonempty back
  bytes : covered new = covered old \ newrg.bytes
  length : new.length ≤ old.length

/-- On regions below 2^57 the test of the loop does not wrap. -/
theorem hasRoom_iff {size : Addr} {rg : VmRg} (hle : rg.rgStart.toNat ≤ rg.rgEnd.toNat)
    (hlt : rg.rgEnd.toNat < 2 ^ 57) (hsize : size.toNat < 2 ^ 31) :
    HasRoom size rg ↔ Fits size.toNat rg := by
  unfold HasRoom Fits
  rw [BitVec.le_def, BitVec.toNat_add, Nat.mod_eq_of_lt (by omega)]
  omega

/-- The region taken from the list of the area. -/
theorem getFreeVmrgArea_eq_some {mm : MmStruct} {vmaid : ℤ} {cur : VmaCursor} {size : BitVec 32}
    {newrg : VmRg} {freergs : List VmRg} (hcur : getVmaByNum mm vmaid = .ok (some cur))
    (htake : takeFreerg (size.signExtend 64) cur.vma.vmFreergList = some (newrg, freergs))
    (hstart : newrg.rgStart ≠ -1) :
    getFreeVmrgArea mm vmaid size =
      .ok (some newrg, { mm with mmap := cur.put { cur.vma with vmFreergList := freergs } }) := by
  unfold getFreeVmrgArea
  rw [hcur, ok_bind]
  dsimp only
  rw [htake]
  dsimp only
  rw [if_neg hstart]
  rfl

theorem getFreeVmrgArea_eq_none {mm : MmStruct} {vmaid : ℤ} {cur : VmaCursor} {size : BitVec 32}
    (hcur : getVmaByNum mm vmaid = .ok (some cur))
    (htake : takeFreerg (size.signExtend 64) cur.vma.vmFreergList = none) :
    getFreeVmrgArea mm vmaid size = .ok (none, mm) := by
  unfold getFreeVmrgArea
  rw [hcur, ok_bind]
  dsimp only
  rw [htake]
  rfl

theorem carves_of_takeFreerg {size : Addr} {old new : List VmRg} {newrg : VmRg}
    (hsize : size.toNat < 2 ^ 31)
    (hrgs : ∀ rg ∈ old, rg.rgStart.toNat ≤ rg.rgEnd.toNat ∧ rg.rgEnd.toNat < 2 ^ 57)
    (hdisj : (old.map VmRg.bytes).Pairwise Disjoint)
    (h : takeFreerg size old = some (newrg, new)) : Carves size.toNat old newrg new := by
  obtain ⟨front, rg, back, rfl, hfront, hroom, rfl, rfl⟩ := takeFreerg_eq_some h
  have hrg := hrgs rg (List.mem_append_right _ (List.mem_cons_self ..))
  have hwrap : rg.rgStart.toNat + size.toNat < 2 ^ 64 := by omega
  have hend : (rg.rgStart + size).toNat = rg.rgStart.toNat + size.toNat := by
    rw [BitVec.toNat_add, Nat.mod_eq_of_lt hwrap]
  refine ⟨⟨front, rg, back, rfl, ?_, (hasRoom_iff hrg.1 hrg.2 hsize).mp hroom, ?_, rfl, ?_⟩, ?_, ?_⟩
  · intro rg' hmem
    have hrg' := hrgs rg' (List.mem_append_left _ hmem)
    exact fun hfits => hfront rg' hmem ((hasRoom_iff hrg'.1 hrg'.2 hsize).mpr hfits)
  · show Set.Ico rg.rgStart.toNat (rg.rgStart + size).toNat = _
    rw [hend]
  · rw [nonempty, List.filter_append]
    exact (congrArg (nonempty front ++ ·) (nonempty_leftover size rg back)).trans
      (List.append_assoc ..).symm
  · exact union_eq_diff (fun b => (mult_takeFreerg h hwrap b).trans mult_cons.symm) hdisj
  · rw [List.length_append, List.length_append]
    exact Nat.add_le_add_left (length_leftover_le size rg back) _

/-- `get_free_vmrg_area` finds a region exactly if one fits. It then takes the
first bytes of the first one that does, and only them; otherwise the map is
unchanged. -/
theorem getFreeVmrgArea_carves {mm : MmStruct} {vmaid : ℤ} {cur : VmaCursor} {size : BitVec 32}
    (hcur : getVmaByNum mm vmaid = .ok (some cur)) (hsize : size.toNat < 2 ^ 31)
    (hrgs : ∀ rg ∈ cur.vma.vmFreergList,
      rg.rgStart.toNat ≤ rg.rgEnd.toNat ∧ rg.rgEnd.toNat < 2 ^ 57)
    (hdisj : (cur.vma.vmFreergList.map VmRg.bytes).Pairwise Disjoint) :
    ∃ result mm', getFreeVmrgArea mm vmaid size = .ok (result, mm') ∧
      (result ≠ none ↔ ∃ rg ∈ cur.vma.vmFreergList, Fits size.toNat rg) ∧
      (result = none → mm' = mm) ∧
      ∀ newrg, result = some newrg → ∃ freergs,
        mm' = { mm with mmap := cur.put { cur.vma with vmFreergList := freergs } } ∧
        Carves size.toNat cur.vma.vmFreergList newrg freergs := by
  have hsize' : (size.signExtend 64).toNat < 2 ^ 31 := by rwa [toNat_signExtend hsize]
  have hfits : ∀ rg ∈ cur.vma.vmFreergList,
      (HasRoom (size.signExtend 64) rg ↔ Fits size.toNat rg) := by
    intro rg hmem
    rw [hasRoom_iff (hrgs rg hmem).1 (hrgs rg hmem).2 hsize', toNat_signExtend hsize]
  cases htake : takeFreerg (size.signExtend 64) cur.vma.vmFreergList with
  | none =>
    refine ⟨none, mm, getFreeVmrgArea_eq_none hcur htake, ?_, fun _ => rfl, ?_⟩
    · refine ⟨fun h => absurd rfl h, fun ⟨rg, hmem, hrg⟩ => ?_⟩
      exact absurd ((hfits rg hmem).mpr hrg) (takeFreerg_eq_none_iff.mp htake rg hmem)
    · intro newrg h
      cases h
  | some taken =>
    obtain ⟨newrg, freergs⟩ := taken
    have hcarves := carves_of_takeFreerg hsize' hrgs hdisj htake
    rw [toNat_signExtend hsize] at hcarves
    obtain ⟨front, rg, back, hold, -, hrg, -, hrgStart, -⟩ := hcarves.exact
    have hmem : rg ∈ cur.vma.vmFreergList := by
      rw [hold]
      exact List.mem_append_right _ (List.mem_cons_self ..)
    have hstart : newrg.rgStart ≠ -1 := by
      intro hneg
      have hbound := hrgs rg hmem
      rw [← hrgStart, hneg] at hbound
      have htop : (-1 : Addr).toNat = 2 ^ 64 - 1 := rfl
      omega
    refine ⟨some newrg, _, getFreeVmrgArea_eq_some hcur htake hstart,
      ⟨fun _ => ⟨rg, hmem, hrg⟩, fun _ => Option.some_ne_none _⟩,
      fun h => absurd h (Option.some_ne_none _), ?_⟩
    intro newrg' h
    cases h
    exact ⟨freergs, rfl, hcarves⟩

/-- One area with three free regions, the second without a byte. -/
def threeFreergs : MmStruct where
  pgd := fun _ => 0
  mmap := [{ vma0 with vmFreergList := [⟨16, 24⟩, ⟨5, 5⟩, ⟨32, 64⟩] }]
  symrgtbl := fun _ => ⟨0, 0⟩
  fifoPgn := []

theorem threeFreergs_disjoint :
    (([⟨16, 24⟩, ⟨5, 5⟩, ⟨32, 64⟩] : List VmRg).map VmRg.bytes).Pairwise Disjoint := by
  simp [VmRg.bytes, Set.Ico_disjoint_Ico]

/-- The first region fits exactly, and its node becomes a copy of the empty one. -/
theorem getFreeVmrgArea_threeFreergs :
    ∃ result mm', getFreeVmrgArea threeFreergs 0 8 = .ok (result, mm') ∧ result ≠ none := by
  have hcur : getVmaByNum threeFreergs 0 =
      .ok (some ⟨[], { vma0 with vmFreergList := [⟨16, 24⟩, ⟨5, 5⟩, ⟨32, 64⟩] }, []⟩) := rfl
  have hsize : (8 : BitVec 32).toNat < 2 ^ 31 := by decide
  have hfits : Fits (8 : BitVec 32).toNat ⟨16, 24⟩ := by
    show 8 ≤ 24 - 16
    decide
  obtain ⟨result, mm', hcall, hfound, -⟩ :=
    getFreeVmrgArea_carves hcur hsize (by decide) threeFreergs_disjoint
  exact ⟨result, mm', hcall, hfound.mpr ⟨⟨16, 24⟩, List.mem_cons_self .., hfits⟩⟩

end MmStruct

end SimpleOs
