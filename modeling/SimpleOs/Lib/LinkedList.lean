import Mathlib

/-!
# Singly linked lists in a heap

A heap maps addresses to nodes; an address without a node is not allocated. A
chain is a path of nodes from one pointer to another, and a linked list is a
chain that ends in the null pointer and meets no node twice.

* `Malloc`: an allocator, which hands out free addresses.
* `Chain H p cells q`: following `next` from `p` meets the nodes `cells`, each
  given by its address and value, and then `q`.
* `chain_append`: a chain can be cut anywhere. `Chain.frame`: it depends only on
  its own nodes. `Chain.unique`: a pointer leads to one list only.
* `exists_linked_nil_iff`, `exists_linked_singleton_iff`: lists of no node and of
  one.
* `Linked.push`, `Linked.pop`, `Linked.dropLast`: a new first node, the first
  node taken off, and the last node taken off behind its predecessor.
* `Linked.setVal`, `Linked.cloneNext`: a node given another value, and a node
  made a copy of the next one, which is freed. `Linked.node`: the node at a position.
* `trailLast_eq`: the walk to the last node with a trailing pointer.
-/

namespace LinkedList

variable {α : Type*}

/-- A node: its value and the pointer to the next one. -/
structure Node (α : Type*) where
  val : α
  next : Option ℕ

/-- The nodes that are allocated. -/
abbrev Heap (α : Type*) := ℕ → Option (Node α)

/-- Only finitely many nodes are allocated. -/
def Heap.Bounded (H : Heap α) : Prop :=
  ∃ n, ∀ a, n ≤ a → H a = none

/-- An allocator: it finds a free address as long as there is a bound to the
allocated ones. -/
structure Malloc (α : Type*) where
  addr : Heap α → ℕ
  free : ∀ H : Heap α, H.Bounded → H (addr H) = none

/-- The path from `p` to `q` through the nodes `cells`. -/
def Chain (H : Heap α) : Option ℕ → List (ℕ × α) → Option ℕ → Prop
  | p, [], q => p = q
  | p, (a, v) :: cells, q => p = some a ∧ ∃ next, H a = some ⟨v, next⟩ ∧ Chain H next cells q

/-- The list at `p` has the nodes `cells`, and no node twice. -/
structure Linked (H : Heap α) (p : Option ℕ) (cells : List (ℕ × α)) : Prop where
  chain : Chain H p cells none
  nodup : (cells.map Prod.fst).Nodup

theorem Heap.Bounded.update {H : Heap α} (h : H.Bounded) (a : ℕ) (node : Option (Node α)) :
    Heap.Bounded (Function.update H a node) := by
  obtain ⟨n, hn⟩ := h
  refine ⟨max n (a + 1), fun b hb => ?_⟩
  rw [Function.update_of_ne (by omega)]
  exact hn b (le_of_max_le_left hb)

open Classical in
/-- The allocator that hands out the least free address. -/
noncomputable def Malloc.least : Malloc α where
  addr H := if h : ∃ a, H a = none then Nat.find h else 0
  free H h := by
    have hfree : ∃ a, H a = none := ⟨h.choose, h.choose_spec _ le_rfl⟩
    rw [dif_pos hfree]
    exact Nat.find_spec hfree

variable {H H' : Heap α} {p q : Option ℕ} {cells cells' : List (ℕ × α)} {a b : ℕ} {v w : α}

theorem chain_append :
    Chain H p (cells ++ cells') q ↔ ∃ m, Chain H p cells m ∧ Chain H m cells' q := by
  induction cells generalizing p with
  | nil => simp [Chain]
  | cons cell cells ih =>
    obtain ⟨a, v⟩ := cell
    constructor
    · rintro ⟨rfl, next, hnode, hrest⟩
      obtain ⟨m, hm, hm'⟩ := ih.mp hrest
      exact ⟨m, ⟨rfl, next, hnode, hm⟩, hm'⟩
    · rintro ⟨m, ⟨rfl, next, hnode, hm⟩, hm'⟩
      exact ⟨rfl, next, hnode, ih.mpr ⟨m, hm, hm'⟩⟩

/-- The nodes of a chain are allocated. -/
theorem Chain.mem (h : Chain H p cells q) (hmem : a ∈ cells.map Prod.fst) : H a ≠ none := by
  induction cells generalizing p with
  | nil => cases hmem
  | cons cell cells ih =>
    obtain ⟨b, v⟩ := cell
    obtain ⟨rfl, next, hnode, hrest⟩ := h
    rcases List.mem_cons.mp hmem with rfl | hin
    · rw [hnode]
      exact Option.some_ne_none _
    · exact ih hrest hin

/-- A chain depends only on its own nodes. -/
theorem Chain.frame (h : Chain H p cells q) (heq : ∀ a ∈ cells.map Prod.fst, H' a = H a) :
    Chain H' p cells q := by
  induction cells generalizing p with
  | nil => exact h
  | cons cell cells ih =>
    obtain ⟨a, v⟩ := cell
    obtain ⟨rfl, next, hnode, hrest⟩ := h
    refine ⟨rfl, next, ?_, ih hrest fun b hb => heq b (List.mem_cons_of_mem _ hb)⟩
    rw [heq a (List.mem_cons_self ..), hnode]

/-- What a pointer leads to is one list. -/
theorem Chain.unique (h : Chain H p cells none) (h' : Chain H p cells' none) : cells = cells' := by
  induction cells generalizing p cells' with
  | nil =>
    have hend : p = none := h
    subst hend
    cases cells' with
    | nil => rfl
    | cons cell cells' =>
      obtain ⟨hhead, -⟩ := h'
      cases hhead
  | cons cell cells ih =>
    obtain ⟨a, v⟩ := cell
    obtain ⟨rfl, next, hnode, hrest⟩ := h
    cases cells' with
    | nil => cases h'
    | cons cell' cells' =>
      obtain ⟨hhead, next', hnode', hrest'⟩ := h'
      cases hhead
      rw [hnode] at hnode'
      cases hnode'
      rw [ih hrest hrest']

theorem linked_nil_iff : Linked H p [] ↔ p = none :=
  ⟨fun h => h.chain, fun h => ⟨h, List.nodup_nil⟩⟩

theorem linked_singleton_iff : Linked H p [(a, v)] ↔ p = some a ∧ H a = some ⟨v, none⟩ := by
  constructor
  · intro h
    obtain ⟨hhead, next, hnode, hend⟩ := h.chain
    have hnull : next = none := hend
    exact ⟨hhead, hnull ▸ hnode⟩
  · rintro ⟨hhead, hnode⟩
    exact ⟨⟨hhead, none, hnode, rfl⟩, List.nodup_singleton _⟩

/-- A pointer leads to the empty list exactly if it is null. -/
theorem exists_linked_nil_iff :
    (∃ cells, Linked H p cells ∧ cells.map Prod.snd = []) ↔ p = none := by
  constructor
  · rintro ⟨cells, hlinked, hcells⟩
    rw [List.map_eq_nil_iff.mp hcells] at hlinked
    exact linked_nil_iff.mp hlinked
  · exact fun hnull => ⟨[], linked_nil_iff.mpr hnull, rfl⟩

/-- A node is a list of its own exactly if its pointer is null. -/
theorem exists_linked_singleton_iff {next : Option ℕ} (hnode : H a = some ⟨v, next⟩) :
    (∃ cells, Linked H (some a) cells ∧ cells.map Prod.snd = [v]) ↔ next = none := by
  constructor
  · rintro ⟨cells, hlinked, hcells⟩
    obtain ⟨⟨b, w⟩, rfl, -⟩ := List.map_eq_singleton_iff.mp hcells
    obtain ⟨hhead, hend⟩ := linked_singleton_iff.mp hlinked
    cases hhead
    rw [hnode] at hend
    exact congrArg Node.next (Option.some.inj hend)
  · rintro rfl
    exact ⟨[(a, v)], linked_singleton_iff.mpr ⟨rfl, hnode⟩, rfl⟩

/-- A newly allocated node in front of the list. -/
theorem Linked.push (h : Linked H p cells) (hfree : H a = none) (v : α) :
    Linked (Function.update H a (some ⟨v, p⟩)) (some a) ((a, v) :: cells) := by
  have hnew : a ∉ cells.map Prod.fst := fun hmem => h.chain.mem hmem hfree
  refine ⟨⟨rfl, p, Function.update_self .., h.chain.frame fun b hb => ?_⟩,
    List.nodup_cons.mpr ⟨hnew, h.nodup⟩⟩
  exact Function.update_of_ne (by rintro rfl; exact hnew hb) _ _

theorem Chain.update_of_not_mem (h : Chain H p cells q) (hnot : a ∉ cells.map Prod.fst)
    (node : Option (Node α)) : Chain (Function.update H a node) p cells q :=
  h.frame fun _ hb => Function.update_of_ne (ne_of_mem_of_not_mem hb hnot) _ _

/-- The first node freed and the next one made the first. -/
theorem Linked.pop (h : Linked H p ((a, v) :: cells)) :
    p = some a ∧ ∃ next, H a = some ⟨v, next⟩ ∧ Linked (Function.update H a none) next cells := by
  obtain ⟨hhead, next, hnode, hrest⟩ := h.chain
  obtain ⟨hnot, hnodup⟩ := List.nodup_cons.mp h.nodup
  exact ⟨hhead, next, hnode, hrest.update_of_not_mem hnot _, hnodup⟩

/-- The last node freed and its predecessor made the last. -/
theorem Linked.dropLast (h : Linked H p (cells ++ [(a, v), (b, w)])) :
    H a = some ⟨v, some b⟩ ∧ H b = some ⟨w, none⟩ ∧
    Linked (Function.update (Function.update H a (some ⟨v, none⟩)) b none) p
      (cells ++ [(a, v)]) := by
  obtain ⟨m, hcells, rfl, next, ha, rfl, next', hb, rfl⟩ := chain_append.mp h.chain
  have hnodup := h.nodup
  rw [List.map_append, List.nodup_append'] at hnodup
  obtain ⟨hfst, hpair, hdisj⟩ := hnodup
  have hab : a ≠ b := by
    rintro rfl
    simp at hpair
  have hframe : ∀ c ∈ cells.map Prod.fst,
      Function.update (Function.update H a (some ⟨v, none⟩)) b none c = H c := by
    intro c hc
    have hca : c ≠ a := by
      rintro rfl
      exact hdisj hc (by simp)
    have hcb : c ≠ b := by
      rintro rfl
      exact hdisj hc (by simp)
    rw [Function.update_of_ne hcb, Function.update_of_ne hca]
  refine ⟨ha, hb, chain_append.mpr ⟨some a, hcells.frame hframe, rfl, none, ?_, rfl⟩, ?_⟩
  · rw [Function.update_of_ne hab, Function.update_self]
  · rw [List.map_append, List.nodup_append']
    exact ⟨hfst, List.nodup_singleton a, fun c hc hc' => hdisj hc (by simp_all)⟩

/-- A node of the list given another value. -/
theorem Linked.setVal (h : Linked H p (cells ++ (a, v) :: cells')) (w : α) :
    ∃ next, H a = some ⟨v, next⟩ ∧ Chain H next cells' none ∧
      Linked (Function.update H a (some ⟨w, next⟩)) p (cells ++ (a, w) :: cells') := by
  obtain ⟨m, hfront, rfl, next, ha, hback⟩ := chain_append.mp h.chain
  have hnodup := h.nodup
  rw [List.map_append, List.map_cons, List.nodup_middle, List.nodup_cons, List.mem_append,
    not_or] at hnodup
  obtain ⟨⟨hnf, hnb⟩, -⟩ := hnodup
  refine ⟨next, ha, hback, chain_append.mpr ⟨some a, hfront.update_of_not_mem hnf _, rfl, next,
    Function.update_self .., hback.update_of_not_mem hnb _⟩, ?_⟩
  have hkeys := h.nodup
  rw [List.map_append, List.map_cons] at hkeys ⊢
  exact hkeys

/-- A chain starts at its first node. -/
theorem Chain.head (h : Chain H p cells none) : p = cells[0]?.map Prod.fst := by
  cases cells with
  | nil => exact h
  | cons cell cells => exact h.1

/-- The node at a position: its pointer leads to the node at the next one, and it can
be given another value. -/
theorem Linked.node (h : Linked H p cells) {i : ℕ} (hi : cells[i]? = some (a, v)) :
    H a = some ⟨v, cells[i + 1]?.map Prod.fst⟩ ∧
    ∀ w, Linked (Function.update H a (some ⟨w, cells[i + 1]?.map Prod.fst⟩)) p
      (cells.set i (a, w)) := by
  obtain ⟨hlt, hcell⟩ := List.getElem?_eq_some_iff.mp hi
  have hsplit : cells = cells.take i ++ (a, v) :: cells.drop (i + 1) := by
    rw [← hcell, List.getElem_cons_drop, List.take_append_drop]
  have hset : ∀ w, cells.set i (a, w) = cells.take i ++ (a, w) :: cells.drop (i + 1) := fun w => by
    rw [List.set_eq_take_append_cons_drop, if_pos hlt]
  have hnext : ∀ w, ∃ next, H a = some ⟨v, next⟩ ∧ next = cells[i + 1]?.map Prod.fst ∧
      Linked (Function.update H a (some ⟨w, next⟩)) p (cells.set i (a, w)) := by
    intro w
    rw [hsplit] at h
    obtain ⟨next, hnode, hrest, hlinked⟩ := h.setVal w
    refine ⟨next, hnode, ?_, (hset w).symm ▸ hlinked⟩
    rw [hrest.head, List.getElem?_drop, Nat.add_zero]
  obtain ⟨next, hnode, rfl, -⟩ := hnext v
  refine ⟨hnode, fun w => ?_⟩
  obtain ⟨_, -, rfl, hlinked⟩ := hnext w
  exact hlinked

/-- A node has one position. -/
theorem Linked.position (h : Linked H p cells) {i j : ℕ} (hi : cells[i]? = some (a, v))
    (hj : cells[j]? = some (a, w)) : i = j := by
  have haddr : ∀ {k : ℕ} {u : α}, cells[k]? = some (a, u) →
      (cells.map Prod.fst)[k]? = some a := fun hk => by
    rw [List.getElem?_map, hk]
    rfl
  obtain ⟨hlt, -⟩ := List.getElem?_eq_some_iff.mp (haddr hi)
  exact (List.getElem?_inj hlt h.nodup).mp ((haddr hi).trans (haddr hj).symm)

/-- A node of the list made a copy of the next one, which is freed. -/
theorem Linked.cloneNext (h : Linked H p (cells ++ (a, v) :: (b, w) :: cells')) :
    ∃ next, H a = some ⟨v, some b⟩ ∧ H b = some ⟨w, next⟩ ∧
      Linked (Function.update (Function.update H a (some ⟨w, next⟩)) b none) p
        (cells ++ (a, w) :: cells') := by
  obtain ⟨m, hfront, rfl, next, ha, rfl, next', hb, hback⟩ := chain_append.mp h.chain
  have hnodup := h.nodup
  rw [List.map_append, List.map_cons, List.map_cons, List.nodup_middle, List.nodup_cons,
    List.mem_append, List.mem_cons, List.nodup_middle, List.nodup_cons, List.mem_append] at hnodup
  obtain ⟨ha', hb', hkeys⟩ := hnodup
  have hab : a ≠ b := fun hab => ha' (.inr (.inl hab))
  refine ⟨next', ha, hb, chain_append.mpr ⟨some a, ?_, rfl, next', ?_, ?_⟩, ?_⟩
  · exact (hfront.update_of_not_mem (fun hm => ha' (.inl hm)) _).update_of_not_mem
      (fun hm => hb' (.inl hm)) _
  · rw [Function.update_of_ne hab, Function.update_self]
  · exact (hback.update_of_not_mem (fun hm => ha' (.inr (.inr hm))) _).update_of_not_mem
      (fun hm => hb' (.inr hm)) _
  · rw [List.map_append, List.map_cons, List.nodup_middle, List.nodup_cons, List.mem_append]
    exact ⟨fun hm => ha' (hm.imp_right .inr), hkeys⟩

/-- The walk `while (p->next) { prev = p; p = p->next; }`, with the pointers it
ends with, or `none` where a pointer leads to no node or the fuel runs out. -/
def trailLast (H : Heap α) : ℕ → Option ℕ → ℕ → Option (Option ℕ × ℕ)
  | 0, _, _ => none
  | fuel + 1, prev, a =>
    match H a with
    | none => none
    | some node =>
      match node.next with
      | none => some (prev, a)
      | some b => trailLast H fuel (some a) b

/-- With fuel for every node, the walk ends at the last node, and the trailing
pointer at the one before it, if there is one. -/
theorem trailLast_eq {fuel : ℕ} {prev : Option ℕ} (h : Chain H (some a) (cells ++ [(b, w)]) none)
    (hfuel : cells.length < fuel) :
    trailLast H fuel prev a = some ((cells.getLast?.map Prod.fst).or prev, b) := by
  induction cells generalizing fuel prev a with
  | nil =>
    obtain ⟨⟨⟩, next, hnode, rfl⟩ := h
    obtain ⟨fuel, rfl⟩ := Nat.exists_eq_add_one_of_ne_zero hfuel.ne_bot
    simp [trailLast, hnode]
  | cons cell cells ih =>
    obtain ⟨c, u⟩ := cell
    obtain ⟨⟨⟩, next, hnode, hrest⟩ := h
    obtain ⟨fuel, rfl⟩ := Nat.exists_eq_add_one_of_ne_zero (Nat.ne_zero_of_lt hfuel)
    obtain ⟨d, rfl⟩ : ∃ d, next = some d := by
      cases cells with
      | nil => exact ⟨_, hrest.1⟩
      | cons cell cells => exact ⟨_, hrest.1⟩
    rw [trailLast, hnode]
    refine (ih hrest (Nat.lt_of_succ_lt_succ hfuel)).trans ?_
    cases cells with
    | nil => rfl
    | cons cell cells =>
      obtain ⟨last, hlast⟩ : ∃ last, (cell :: cells).getLast? = some last :=
        ⟨_, List.getLast?_eq_some_getLast (List.cons_ne_nil cell cells)⟩
      rw [List.getLast?_cons_cons, hlast]
      rfl

end LinkedList
