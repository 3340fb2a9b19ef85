import SimpleOs.Lib.Custody
import SimpleOs.Os

/-!
# The dispatch loop

Who holds which process, and what a CPU does with a process it holds. The moves
of a process between the ready queue and the CPUs form a custody history in the
sense of `Custody`; the slices are counted on the labels of a run.

Results:
1. `run_located`: every run of the system is a custody history of its processes.
2. `dispatch_in_slices`: a process is held by one CPU at a time, is executed in
   program order, is freed once and only when it is finished, and leaves a CPU
   unfinished only after exactly `time_slot` calls of `run`.
-/

namespace SimpleOs

namespace Os

open Custody (Loc Event)

variable {ι π : Type*} {cfg : Config ι} {Q : ReadyQueue π}

/-! ## Who holds a process -/

/-- The CPU holds process `p`. After `free` and `put_proc` the variable `proc`
still names the process it no longer holds. -/
def Cpu.holds (u : Cpu) (p : ℕ) : Prop :=
  u.proc = some p ∧ u.pc ≠ .getAfterFree ∧ u.pc ≠ .getAfterPut

/-- CPU `c` holds process `p`. -/
def State.holds (s : State π) (c p : ℕ) : Prop :=
  (s.cpu c).holds p

@[simp] theorem setCpu_holds (s : State π) (c c' p : ℕ) (u : Cpu) :
    (s.setCpu c u).holds c' p ↔ if c' = c then u.holds p else s.holds c' p := by
  simp only [State.holds, setCpu_cpu]
  split <;> rfl

theorem holds_frame {s : State π} {c : ℕ} {u : Cpu} (hu : ∀ p, u.holds p ↔ s.holds c p)
    (c' p : ℕ) : (s.setCpu c u).holds c' p ↔ s.holds c' p := by
  rw [setCpu_holds]
  split
  · next h => rw [h]; exact hu p
  · rfl

/-- The move of a process that a step makes. -/
def Label.event : Label ι → Option (Event ℕ ℕ)
  | .add p => some (.add p)
  | .got c (some p) => some (.get c p)
  | .put c p => some (.put c p)
  | .free c p => some (.free c p)
  | _ => none

/-- The processes are where `l` says. -/
structure Located (cfg : Config ι) (Q : ReadyQueue π) (s : State π) (l : ℕ → Loc ℕ) : Prop where
  queue : ∀ p, (Q.content s.queue).count p = if l p = .pooled then 1 else 0
  held : ∀ c p, s.holds c p ↔ l p = .held c
  unborn : ∀ p, l p = .unborn ↔ s.loader.i ≤ p
  gone : ∀ p, l p = .gone → s.pc p = cfg.size p

/-- A step that moves no process. -/
theorem Located.frame {s s' : State π} {l : ℕ → Loc ℕ} (h : Located cfg Q s l)
    (hqueue : Q.content s'.queue = Q.content s.queue)
    (hheld : ∀ c p, s'.holds c p ↔ s.holds c p)
    (hi : s'.loader.i = s.loader.i) (hpc : ∀ p, l p = .gone → s'.pc p = s.pc p) :
    Located cfg Q s' l where
  queue := by rw [hqueue]; exact h.queue
  held c p := (hheld c p).trans (h.held c p)
  unborn := by rw [hi]; exact h.unborn
  gone p hp := (hpc p hp).trans (h.gone p hp)

/-- A step that moves process `p` to the location `x`. -/
theorem Located.move {s s' : State π} {l : ℕ → Loc ℕ} {p : ℕ} {x : Loc ℕ}
    (h : Located cfg Q s l) (hx : x ≠ .unborn)
    (hqueue : ∀ p', (Q.content s'.queue).count p' =
      if p' = p then if x = .pooled then 1 else 0 else (Q.content s.queue).count p')
    (hheld : ∀ c p', s'.holds c p' ↔ if p' = p then x = .held c else s.holds c p')
    (hi : ∀ p', s'.loader.i ≤ p' ↔ s.loader.i ≤ p' ∧ p' ≠ p)
    (hpc : s'.pc = s.pc) (hgone : x = .gone → s.pc p = cfg.size p) :
    Located cfg Q s' (Function.update l p x) where
  queue p' := by
    rw [hqueue p', Function.update_apply]
    split
    · rfl
    · exact h.queue p'
  held c p' := by
    rw [hheld c p', Function.update_apply]
    split
    · rfl
    · exact h.held c p'
  unborn p' := by
    rw [hi p', Function.update_apply]
    split
    · next hp => simp [hp, hx]
    · next hp => simp [h.unborn p', hp]
  gone p' := by
    rw [hpc, Function.update_apply]
    split
    · next hp =>
      subst hp
      exact hgone
    · exact h.gone p'

theorem Located.born {s : State π} {l : ℕ → Loc ℕ} {p : ℕ} (h : Located cfg Q s l)
    (hp : l p ≠ .unborn) (p' : ℕ) : s.loader.i ≤ p' ↔ s.loader.i ≤ p' ∧ p' ≠ p := by
  refine ⟨fun hle => ⟨hle, ?_⟩, And.left⟩
  rintro rfl
  exact hp ((h.unborn p').mpr hle)

/-- One event of a custody history. -/
theorem run_event {l : ℕ → Loc ℕ} (e : Event ℕ ℕ) (h : l e.token = e.source) :
    Custody.system.Run l [e] (Function.update l e.token e.target) :=
  .snoc .nil ⟨h, rfl⟩

/-- What the local variables of a CPU say about each other. -/
structure CpuInv (u : Cpu) : Prop where
  first : u.pc = .getFirst → u.proc = none
  idle : u.proc = none → u.timeLeft = 0
  put : u.pc = .getAfterPut → u.timeLeft = 0
  ended : u.pc = .leave ∨ u.pc = .stopped → u.proc = none

/-- With a process, only the position behind `put_proc` asks for more. -/
theorem CpuInv.busy {pc : CpuPc} {p : ℕ} {k : ℤ} (hfirst : pc ≠ .getFirst)
    (hput : pc = .getAfterPut → k = 0) (hended : pc ≠ .leave ∧ pc ≠ .stopped) :
    CpuInv ⟨pc, some p, k⟩ :=
  ⟨fun h => absurd h hfirst, nofun, hput, fun h => absurd h (not_or.mpr hended)⟩

/-- Behind `get_proc` a CPU is at the end of its slot or tests `proc` again. -/
theorem afterGet_ne {p : Prop} [Decidable p] {pc : CpuPc} (hpc : pc ≠ .slot ∧ pc ≠ .recheck) :
    (if p then CpuPc.slot else .recheck) ≠ pc := by
  split
  · exact hpc.1.symm
  · exact hpc.2.symm

/-- A CPU that gets a process has used up its slice. -/
theorem CpuInv.gets {u : Cpu} (hi : CpuInv u) (hgets : u.pc.gets = true) :
    (if u.pc = .getAfterFree then 0 else u.timeLeft) = 0 := by
  split
  · rfl
  · next hfree =>
    cases hpc : u.pc with
    | getFirst => exact hi.idle (hi.first hpc)
    | getAfterPut => exact hi.put hpc
    | getAfterFree => exact absurd hpc hfree
    | _ =>
      rw [hpc] at hgets
      cases hgets

theorem CpuMove.cpuInv {s s' : State π} {c : ℕ} {lab : Label ι} (hm : CpuMove cfg Q s c lab s')
    (hi : CpuInv (s.cpu c)) : CpuInv (s'.cpu c) := by
  have hself : ∀ u, CpuInv u → CpuInv (Function.update s.cpu c u c) := fun u hu => by
    rwa [Function.update_self]
  cases hm with
  | noProc hpc hproc =>
    exact hself _ ⟨fun _ => rfl, fun _ => hi.idle hproc, nofun, fun _ => rfl⟩
  | finished | running | dispatch | exec =>
    exact hself _ (.busy nofun nofun ⟨nofun, nofun⟩)
  | expired hpc hproc hfin hleft => exact hself _ (.busy nofun (fun _ => hleft) ⟨nofun, nofun⟩)
  | exit hpc hproc hdone | idle hpc hproc hdone =>
    exact hself _ ⟨nofun, fun _ => hi.idle hproc, nofun, fun _ => rfl⟩
  | @got r q k hgets hk hget =>
    refine hself _ ⟨fun h => absurd h (afterGet_ne ⟨nofun, nofun⟩),
      fun _ => hk.trans (hi.gets hgets), fun h => absurd h (afterGet_ne ⟨nofun, nofun⟩),
      fun h => ?_⟩
    rcases h with h | h
    · exact absurd h (afterGet_ne ⟨nofun, nofun⟩)
    · exact absurd h (afterGet_ne ⟨nofun, nofun⟩)

/-- A statement of a CPU moves the process its label names, and no other. -/
theorem CpuMove.located {s s' : State π} {c : ℕ} {lab : Label ι} {l : ℕ → Loc ℕ}
    (hm : CpuMove cfg Q s c lab s') (hi : CpuInv (s.cpu c)) (h : Located cfg Q s l) :
    ∃ l', Custody.system.Run l lab.event.toList l' ∧ Located cfg Q s' l' := by
  have hqueue := h.queue
  cases hm with
  | @finished p hpc hproc hfin =>
    have hc : s.holds c p := ⟨hproc, by simp [hpc]⟩
    have hl : l p = .held c := (h.held c p).mp hc
    refine ⟨_, run_event (.free c p) hl, h.move (p := p) (by simp [Event.target]) ?_ ?_
      (h.born (by simp [hl])) rfl fun _ => hfin⟩
    · intro p'
      have := hqueue p'
      grind [Event.target, setCpu_queue]
    · intro c' p'
      have := h.held c' p'
      grind [Event.target, setCpu_holds, Cpu.holds, State.holds]
  | @expired p hpc hproc hfin hleft =>
    have hc : s.holds c p := ⟨hproc, by simp [hpc]⟩
    have hl : l p = .held c := (h.held c p).mp hc
    refine ⟨_, run_event (.put c p) hl, h.move (p := p) (by simp [Event.target]) ?_ ?_
      (h.born (by simp [hl])) rfl (by simp [Event.target])⟩
    · intro p'
      have := hqueue p'
      grind [Event.target, Q.content_put, Multiset.count_cons]
    · intro c' p'
      change (s.setCpu c _).holds c' p' ↔ _
      have := h.held c' p'
      grind [Event.target, setCpu_holds, Cpu.holds, State.holds]
  | @got r q k hgets hk hget =>
    have hnot : ∀ p, ¬ s.holds c p := by
      intro p
      have hfirst := hi.first
      cases hpc : (s.cpu c).pc <;> simp_all [State.holds, Cpu.holds, CpuPc.gets]
    cases r with
    | none =>
      refine ⟨l, .nil, h.frame (Q.content_null hget) ?_ rfl fun _ _ => rfl⟩
      refine holds_frame fun p => ?_
      simp [hnot p, Cpu.holds]
    | some p =>
      have hcontent := Q.content_get hget
      have hl : l p = .pooled := by
        have := hqueue p
        by_contra hne
        simp [hcontent, hne] at this
      refine ⟨_, run_event (.get c p) hl, h.move (p := p) (by simp [Event.target]) ?_ ?_
        (h.born (by simp [hl])) rfl (by simp [Event.target])⟩
      · intro p'
        have := hqueue p'
        grind [Event.target, Multiset.count_cons]
      · intro c' p'
        change (s.setCpu c _).holds c' p' ↔ _
        have := hnot p'
        have := h.held c' p'
        grind [Event.target, setCpu_holds, Cpu.holds]
  | @exec p hpc hproc =>
    refine ⟨l, .nil, h.frame rfl (holds_frame fun p' => ?_) rfl fun p' hp' => ?_⟩
    · simp [State.holds, Cpu.holds, hpc, hproc]
    · have hl : l p = .held c := (h.held c p).mp ⟨hproc, by simp [hpc]⟩
      exact Function.update_of_ne (by rintro rfl; simp [hl] at hp') _ _
  | _ =>
    refine ⟨l, .nil, h.frame rfl (holds_frame fun p' => ?_) rfl fun _ _ => rfl⟩
    simp_all [State.holds, Cpu.holds]

/-- The same for every step of the system. -/
theorem step_located {s s' : State π} {lab : Label ι} {l : ℕ → Loc ℕ}
    (hst : Step cfg Q s lab s') (hi : ∀ c, CpuInv (s.cpu c)) (h : Located cfg Q s l) :
    ∃ l', Custody.system.Run l lab.event.toList l' ∧ Located cfg Q s' l' := by
  cases hst with
  | cpu hc hw hget hm => exact (cpuRoutine_move hget hm).located (hi _) h
  | @cpuCall c a pc t hc hcall ht =>
    refine ⟨l, .nil, h.frame rfl (holds_frame (u := { s.cpu c with pc := pc }) fun p => ?_) rfl
      fun _ _ => rfl⟩
    cases hpc : (s.cpu c).pc <;> simp only [hpc, CpuPc.call] at hcall <;> cases hcall <;>
      simp [State.holds, Cpu.holds, hpc]
  | loader hw hm =>
    cases ldRoutine_move hm with
    | addProc hpc =>
      have hl : l s.loader.i = .unborn := (h.unborn _).mpr le_rfl
      refine ⟨_, run_event (.add s.loader.i) hl, h.move (p := s.loader.i) (by simp [Event.target])
        ?_ ?_ ?_ rfl (by simp [Event.target])⟩
      · intro p'
        have := h.queue p'
        grind [Event.target, Q.content_add, Multiset.count_cons]
      · intro c' p'
        change s.holds c' p' ↔ _
        have := h.held c' p'
        grind [Event.target]
      · intro p'
        change s.loader.i + 1 ≤ p' ↔ _
        omega
    | _ => exact ⟨l, .nil, h.frame rfl (fun _ _ => Iff.rfl) rfl fun _ _ => rfl⟩
  | loaderCall hcall ht => exact ⟨l, .nil, h.frame rfl (fun _ _ => Iff.rfl) rfl fun _ _ => rfl⟩
  | timer ha ht => exact ⟨l, .nil, h.frame rfl (fun _ _ => Iff.rfl) rfl fun _ _ => rfl⟩

/-- A step of another thread leaves the record of CPU `c` alone. -/
theorem cpuMove_other {s s' : State π} {c c' : ℕ} {lab : Label ι} (hm : CpuMove cfg Q s c lab s')
    (hc : c' ≠ c) : s'.cpu c' = s.cpu c' := by
  cases hm <;> simp [State.setCpu, Function.update_of_ne hc]

theorem step_cpuInv {s s' : State π} {lab : Label ι} (hst : Step cfg Q s lab s')
    (hi : ∀ c, CpuInv (s.cpu c)) (c : ℕ) : CpuInv (s'.cpu c) := by
  cases hst with
  | @cpu _ c' r q lab hc hw hget hm =>
    have hmove := cpuRoutine_move hget hm
    rcases eq_or_ne c c' with rfl | hcc
    · exact hmove.cpuInv (hi c)
    · rw [cpuMove_other hmove hcc]
      exact hi c
  | @cpuCall c' a pc t hc hcall ht =>
    change CpuInv ((s.setCpu c' _).cpu c)
    rw [setCpu_cpu]
    split
    · rcases CpuPc.call_eq hcall with ⟨-, hpc, rfl⟩ | ⟨-, hpc, rfl⟩
      · exact ⟨nofun, (hi c').idle, nofun, fun h => absurd h (not_or.mpr ⟨nofun, nofun⟩)⟩
      · exact ⟨nofun, (hi c').idle, nofun, fun _ => (hi c').ended (.inl hpc)⟩
    · exact hi c
  | loader hw hm => cases ldRoutine_move hm <;> exact hi c
  | loaderCall hcall ht => exact hi c
  | timer ha ht => exact hi c

theorem located_start : Located cfg Q (start Q) fun _ => .unborn where
  queue p := by simp [start, Q.content_empty]
  held c p := by simp [start, State.holds, Cpu.holds]
  unborn p := by simp [start]
  gone p h := by cases h

/-- Every run of the system is a custody history of its processes. -/
theorem run_located {s : State π} {tr : List (Label ι)} (hr : (system cfg Q).Run (start Q) tr s) :
    (∀ c, CpuInv (s.cpu c)) ∧
    ∃ l, Custody.system.Run (fun _ => .unborn) (tr.filterMap Label.event) l ∧
      Located cfg Q s l := by
  refine hr.trace_invariant (I := fun tr s => (∀ c, CpuInv (s.cpu c)) ∧
    ∃ l, Custody.system.Run (fun _ => .unborn) (tr.filterMap Label.event) l ∧
      Located cfg Q s l) ⟨fun c => ?_, _, .nil, located_start⟩ ?_
  · constructor <;> simp [start]
  · rintro tr s lab s' - ⟨hi, l, hl, h⟩ hst
    obtain ⟨l', hl', h'⟩ := step_located hst hi h
    refine ⟨step_cpuInv hst hi, l', ?_, h'⟩
    have hlast : [lab].filterMap Label.event = lab.event.toList := by
      cases hev : lab.event <;> simp [hev]
    rw [List.filterMap_append, hlast]
    exact hl.append hl'

/-! ## Slices -/

/-- The instructions of process `p` that the calls of `run` have executed. -/
def executed (p : ℕ) (tr : List (Label ι)) : List ι :=
  tr.filterMap fun
    | .run _ q ins => if q = p then ins else none
    | _ => none

/-- One more label, for the number of calls of `run` since `p` was dispatched. -/
def sliceStep (p k : ℕ) : Label ι → ℕ
  | .got _ (some q) => if q = p then 0 else k
  | .run _ q _ => if q = p then k + 1 else k
  | _ => k

/-- The number of calls of `run` on `p` since `get_proc` last returned it. -/
def sinceDispatch (p : ℕ) (tr : List (Label ι)) : ℕ :=
  tr.foldl (sliceStep p) 0

theorem sinceDispatch_snoc (p : ℕ) (tr : List (Label ι)) (lab : Label ι) :
    sinceDispatch p (tr ++ [lab]) = sliceStep p (sinceDispatch p tr) lab := by
  simp [sinceDispatch]

theorem executed_snoc_run (p c q : ℕ) (tr : List (Label ι)) (ins : Option ι) :
    executed p (tr ++ [.run c q ins]) = executed p tr ++ if q = p then ins.toList else [] := by
  cases ins <;> by_cases hq : q = p <;> simp [executed, hq]

/-- `run` executes the next instruction, if there is one, and counts it. -/
theorem run_take (text : List ι) (pc : ℕ) :
    text.take (run text pc).2 = text.take pc ++ (run text pc).1.toList := by
  unfold run
  split
  · simp
  · exact List.take_add_one

theorem run_le {text : List ι} {pc : ℕ} (h : pc ≤ text.length) :
    (run text pc).2 ≤ text.length := by
  unfold run
  split
  · exact h
  · omega

/-- The slice counter of one CPU against the calls of `run` on the process it
holds. Between `get_proc` and the dispatch, `time_left` is still zero. -/
structure SliceCpu (cfg : Config ι) (since : ℕ → ℕ) (u : Cpu) : Prop where
  nonneg : 0 ≤ u.timeLeft
  le_slot : u.timeLeft ≤ cfg.timeSlot
  exec : u.pc = .exec → 0 < u.timeLeft
  fresh : ∀ p, u.holds p → u.pc = .recheck → u.timeLeft = 0 → since p = 0
  count : ∀ p, u.holds p → ¬ (u.pc = .recheck ∧ u.timeLeft = 0) →
    since p = cfg.timeSlot - u.timeLeft

/-- Only the counters of the process held matter. -/
theorem SliceCpu.congr {since since' : ℕ → ℕ} {u : Cpu} (h : SliceCpu cfg since u)
    (hs : ∀ p, u.holds p → since' p = since p) : SliceCpu cfg since' u where
  nonneg := h.nonneg
  le_slot := h.le_slot
  exec := h.exec
  fresh p hp := by rw [hs p hp]; exact h.fresh p hp
  count p hp := by rw [hs p hp]; exact h.count p hp

/-- The counters of the dispatch loop. -/
structure SliceInv (cfg : Config ι) (tr : List (Label ι)) (s : State π) : Prop where
  executed : ∀ p, executed p tr = (cfg.text p).take (s.pc p)
  pc_le : ∀ p, s.pc p ≤ cfg.size p
  cpu : ∀ c, SliceCpu cfg (sinceDispatch · tr) (s.cpu c)

/-- The counter of a process changes only in steps of the CPU that holds it or
gets it. -/
theorem CpuMove.since {s s' : State π} {tr : List (Label ι)} {c p : ℕ} {lab : Label ι}
    {l : ℕ → Loc ℕ} (hm : CpuMove cfg Q s c lab s') (hl : Located cfg Q s l) {c' : ℕ}
    (hc : c' ≠ c) (hp : s.holds c' p) : sinceDispatch p (tr ++ [lab]) = sinceDispatch p tr := by
  have hloc := (hl.held c' p).mp hp
  rw [sinceDispatch_snoc]
  cases hm with
  | @got r q k hgets hk hget =>
    cases r with
    | none => rfl
    | some p' =>
      have hne : p' ≠ p := by
        rintro rfl
        have := hl.queue p'
        simp [Q.content_get hget, hloc] at this
      simp [sliceStep, hne]
  | @exec p' hpc hproc =>
    have hne : p' ≠ p := by
      rintro rfl
      have := (hl.held c p').mp ⟨hproc, by simp [hpc]⟩
      simp [hloc, hc] at this
    simp [sliceStep, hne]
  | _ => rfl

/-- A CPU that holds no process and runs none. -/
theorem SliceCpu.idle {since : ℕ → ℕ} {u : Cpu} (hnonneg : 0 ≤ u.timeLeft)
    (hle : u.timeLeft ≤ cfg.timeSlot) (hexec : u.pc ≠ .exec) (hnone : ∀ p, ¬ u.holds p) :
    SliceCpu cfg since u where
  nonneg := hnonneg
  le_slot := hle
  exec h := absurd h hexec
  fresh p hp := absurd hp (hnone p)
  count p hp := absurd hp (hnone p)

/-- What a statement of CPU `c` does to its own slice. -/
theorem CpuMove.slice {s s' : State π} {tr : List (Label ι)} {c : ℕ} {lab : Label ι}
    (hm : CpuMove cfg Q s c lab s') (hslot : 1 ≤ cfg.timeSlot) (hi : CpuInv (s.cpu c))
    (h : SliceCpu cfg (sinceDispatch · tr) (s.cpu c)) :
    SliceCpu cfg (sinceDispatch · (tr ++ [lab])) (s'.cpu c) := by
  obtain ⟨h1, h2, h3, h4, h5⟩ := h
  have hself : ∀ u, SliceCpu cfg (sinceDispatch · (tr ++ [lab])) u →
      SliceCpu cfg (sinceDispatch · (tr ++ [lab])) (Function.update s.cpu c u c) := fun u hu => by
    rwa [Function.update_self]
  have hslot' : (1 : ℤ) ≤ cfg.timeSlot := by exact_mod_cast hslot
  cases hm with
  | noProc | exit | idle =>
    exact hself _ (.idle h1 h2 nofun fun p hp => absurd hp.1 nofun)
  | finished => exact hself _ (.idle h1 h2 nofun fun p hp => hp.2.1 rfl)
  | expired => exact hself _ (.idle h1 h2 nofun fun p hp => hp.2.2 rfl)
  | @running p hpc hproc hfin hleft =>
    refine hself _ ⟨h1, h2, nofun, fun _ _ _ hzero => absurd hzero hleft, fun p' hp' _ => ?_⟩
    obtain rfl : p = p' := Option.some.inj hp'.1
    rw [sinceDispatch_snoc]
    exact h5 p ⟨hproc, by rw [hpc]; nofun, by rw [hpc]; nofun⟩ fun h => by rw [hpc] at h; cases h.1
  | @got r q k hgets hk hget =>
    have hk0 : k = 0 := hk.trans (hi.gets hgets)
    subst hk0
    refine hself _ ⟨le_rfl, le_trans zero_le_one hslot',
      fun h => absurd h (afterGet_ne ⟨nofun, nofun⟩), fun p hp _ _ => ?_,
      fun p hp hn => absurd ⟨?_, rfl⟩ hn⟩
    · obtain rfl : r = some p := hp.1
      rw [sinceDispatch_snoc]
      exact if_pos rfl
    · obtain rfl : r = some p := hp.1
      exact if_neg fun h => absurd h.2 nofun
  | @exec p hpc hproc =>
    have hpos := h3 hpc
    have hcount := h5 p ⟨hproc, by rw [hpc]; nofun, by rw [hpc]; nofun⟩ fun h => by
      rw [hpc] at h; cases h.1
    refine hself _ ⟨Int.le_sub_one_of_lt hpos, le_trans (Int.sub_le_self _ zero_le_one) h2, nofun,
      nofun, fun p' hp' _ => ?_⟩
    obtain rfl : p = p' := Option.some.inj hp'.1
    have hstep : ∀ ins : Option ι, sinceDispatch p (tr ++ [.run c p ins]) =
        sinceDispatch p tr + 1 := fun ins => by
      rw [sinceDispatch_snoc]
      exact if_pos rfl
    rw [hstep, Nat.cast_add, hcount, Nat.cast_one, sub_sub_eq_add_sub, sub_add_eq_add_sub]
  | @dispatch p k hpc hproc hk =>
    have hheld : (s.cpu c).holds p := ⟨hproc, by rw [hpc]; nofun, by rw [hpc]; nofun⟩
    have hslice : 0 < k ∧ k ≤ cfg.timeSlot ∧ sinceDispatch p tr = cfg.timeSlot - k := by
      rw [hk]
      split
      · next hzero =>
        have hfresh := h4 p hheld hpc hzero
        exact ⟨hslot', le_rfl, by rw [hfresh, Nat.cast_zero, sub_self]⟩
      · next hne =>
        exact ⟨lt_of_le_of_ne h1 (Ne.symm hne), h2, h5 p hheld fun h => hne h.2⟩
    obtain ⟨hpos, hle, hcount⟩ := hslice
    refine hself _ ⟨hpos.le, hle, fun _ => hpos, nofun, fun p' hp' _ => ?_⟩
    obtain rfl : p = p' := Option.some.inj hp'.1
    rw [sinceDispatch_snoc]
    exact hcount

/-- A step whose label counts nothing and that changes no program counter. -/
theorem SliceInv.frame {s s' : State π} {tr : List (Label ι)} {lab : Label ι}
    (h : SliceInv cfg tr s) (hlab : ∀ c p ins, lab ≠ .run c p ins) (hpc : s'.pc = s.pc)
    (hcpu : ∀ c, SliceCpu cfg (sinceDispatch · (tr ++ [lab])) (s'.cpu c)) :
    SliceInv cfg (tr ++ [lab]) s' where
  executed p := by
    have hnone : Os.executed p [lab] = [] := by
      cases lab <;> first | rfl | exact absurd rfl (hlab _ _ _)
    rw [hpc, ← h.executed p, Os.executed, List.filterMap_append]
    exact (congrArg _ hnone).trans (List.append_nil _)
  pc_le := by rw [hpc]; exact h.pc_le
  cpu := hcpu

theorem step_slice {s s' : State π} {tr : List (Label ι)} {lab : Label ι} {l : ℕ → Loc ℕ}
    (hst : Step cfg Q s lab s') (hslot : 1 ≤ cfg.timeSlot) (hi : ∀ c, CpuInv (s.cpu c))
    (hl : Located cfg Q s l) (h : SliceInv cfg tr s) : SliceInv cfg (tr ++ [lab]) s' := by
  cases hst with
  | @cpu _ c r q lab hc hw hget hr =>
    have hm := cpuRoutine_move hget hr
    have hcpu : ∀ c', SliceCpu cfg (sinceDispatch · (tr ++ [lab])) (s'.cpu c') := by
      intro c'
      rcases eq_or_ne c' c with rfl | hcc
      · exact hm.slice hslot (hi c') (h.cpu c')
      · rw [cpuMove_other hm hcc]
        exact (h.cpu c').congr fun p hp => hm.since hl hcc hp
    cases hm with
    | @exec p hpc hproc =>
      refine ⟨fun p' => ?_, fun p' => ?_, hcpu⟩
      · rw [executed_snoc_run, h.executed p']
        simp only [Function.update_apply]
        rcases eq_or_ne p' p with rfl | hp
        · simp [run_take]
        · simp [hp, Ne.symm hp]
      · simp only [Function.update_apply]
        split
        · next hp => rw [hp]; exact run_le (h.pc_le p)
        · exact h.pc_le p'
    | _ => exact h.frame (by simp) rfl hcpu
  | @cpuCall c a pc t hc hcall ht =>
    refine h.frame (by simp) rfl fun c' => ?_
    change SliceCpu cfg _ ((s.setCpu c _).cpu c')
    simp only [sinceDispatch_snoc, sliceStep, setCpu_cpu]
    split
    · obtain ⟨h1, h2, h3, h4, h5⟩ := h.cpu c
      rcases CpuPc.call_eq hcall with ⟨-, hpc, rfl⟩ | ⟨-, hpc, rfl⟩ <;>
        constructor <;> simp_all [Cpu.holds]
    · exact h.cpu c'
  | loader hw hm =>
    cases ldRoutine_move hm <;>
      exact h.frame (by simp) rfl fun c => by simpa [sinceDispatch_snoc, sliceStep] using h.cpu c
  | loaderCall hcall ht =>
    exact h.frame (by simp) rfl fun c => by simpa [sinceDispatch_snoc, sliceStep] using h.cpu c
  | timer ha ht =>
    exact h.frame (by simp) rfl fun c => by simpa [sinceDispatch_snoc, sliceStep] using h.cpu c

/-- The invariants of the dispatch loop, at the end of every run. -/
theorem run_slice {s : State π} {tr : List (Label ι)} (hslot : 1 ≤ cfg.timeSlot)
    (hr : (system cfg Q).Run (start Q) tr s) : SliceInv cfg tr s := by
  have hstart : SliceInv cfg [] (start Q) := by
    refine ⟨fun p => by simp [executed, start], fun p => Nat.zero_le _, fun c => ?_⟩
    constructor <;> simp [start, Cpu.holds]
    omega
  refine hr.trace_invariant (I := fun tr s => SliceInv cfg tr s) hstart ?_
  intro tr s lab s' hrun h hst
  obtain ⟨hi, l, -, hl⟩ := run_located hrun
  exact step_slice hst hslot hi hl h

/-- The process a step runs, puts back or frees. -/
def Label.uses : Label ι → Option (ℕ × ℕ)
  | .run c p _ | .put c p | .free c p => some (c, p)
  | _ => none

/-- A CPU runs, puts back and frees only the process it holds. -/
theorem holds_of_uses {s s' : State π} {lab : Label ι} {c p : ℕ} (hst : Step cfg Q s lab s')
    (hu : lab.uses = some (c, p)) : s.holds c p := by
  cases hst with
  | cpu hc hw hget hr =>
    cases cpuRoutine_move hget hr <;> simp_all [Label.uses, State.holds, Cpu.holds]
  | loader hw hr => cases ldRoutine_move hr <;> simp [Label.uses] at hu
  | _ => simp [Label.uses] at hu

/-- The dispatch loop, in every run and for any number of CPUs. At the end of
the run no process is held by two CPUs, each has executed a prefix of its text
as long as its program counter, and a process a CPU holds has been run at most
`time_slot` times since `get_proc` returned it. Whatever step comes next: it
runs, puts back or frees a process only on the CPU that holds it and only if it
has never been freed; it frees only a finished process, puts one back only
unfinished and after exactly `time_slot` runs, and where it runs an unfinished one it
executes the instruction at the program counter and advances it. -/
theorem dispatch_in_slices {s : State π} {tr : List (Label ι)} (hslot : 1 ≤ cfg.timeSlot)
    (hr : (system cfg Q).Run (start Q) tr s) :
    (∀ c c' p, s.holds c p → s.holds c' p → c = c') ∧
    (∀ p, executed p tr = (cfg.text p).take (s.pc p) ∧ s.pc p ≤ cfg.size p) ∧
    (∀ c p, s.holds c p → sinceDispatch p tr ≤ cfg.timeSlot) ∧
    ∀ lab s', Step cfg Q s lab s' →
      (∀ c p, lab.uses = some (c, p) → s.holds c p ∧ ∀ c', .free c' p ∉ tr) ∧
      (∀ c p, lab = .free c p → s.pc p = cfg.size p) ∧
      (∀ c p, lab = .put c p → s.pc p < cfg.size p ∧ sinceDispatch p tr = cfg.timeSlot) ∧
      ∀ c p ins, lab = .run c p ins → s.pc p < cfg.size p →
        ins = (cfg.text p)[s.pc p]? ∧ s'.pc p = s.pc p + 1 := by
  obtain ⟨hi, l, hcust, hl⟩ := run_located hr
  have hslice := run_slice hslot hr
  refine ⟨fun c c' p h h' => ?_, fun p => ⟨hslice.executed p, hslice.pc_le p⟩, fun c p h => ?_, ?_⟩
  · have heq : Loc.held c = .held c' := ((hl.held c p).mp h).symm.trans ((hl.held c' p).mp h')
    exact Loc.held.inj heq
  · have hcpu := hslice.cpu c
    have hpos := hcpu.nonneg
    have hle := hcpu.le_slot
    by_cases hrecheck : (s.cpu c).pc = .recheck ∧ (s.cpu c).timeLeft = 0
    · have := hcpu.fresh p h hrecheck.1 hrecheck.2
      omega
    · have := hcpu.count p h hrecheck
      omega
  · intro lab s' hst
    refine ⟨fun c p hu => ?_, ?_, ?_, ?_⟩
    · have hheld := holds_of_uses hst hu
      refine ⟨hheld, fun c' hfree => ?_⟩
      have hgone := Custody.gone_of_free hcust
        (List.mem_filterMap.mpr ⟨_, hfree, rfl⟩ : Event.free c' p ∈ _)
      rw [(hl.held c p).mp hheld] at hgone
      cases hgone
    · rintro c p rfl
      cases hst with
      | cpu hc hw hget hr =>
        cases cpuRoutine_move hget hr with
        | finished _ _ hfin => exact hfin
      | loader hw hr => cases ldRoutine_move hr
    · rintro c p rfl
      cases hst with
      | cpu hc hw hget hr =>
        cases cpuRoutine_move hget hr with
        | expired hpc hproc hfin hleft =>
          have hcount := (hslice.cpu c).count p ⟨hproc, by simp [hpc]⟩ (by simp [hpc])
          refine ⟨lt_of_le_of_ne (hslice.pc_le p) hfin, ?_⟩
          omega
      | loader hw hr => cases ldRoutine_move hr
    · rintro c p ins rfl hlt
      cases hst with
      | cpu hc hw hget hr =>
        cases cpuRoutine_move hget hr with
        | exec hpc hproc =>
          have hrun : run (cfg.text p) (s.pc p) = ((cfg.text p)[s.pc p]?, s.pc p + 1) :=
            if_neg (Nat.not_le.mpr hlt)
          rw [hrun]
          exact ⟨rfl, Function.update_self ..⟩
      | loader hw hr => cases ldRoutine_move hr

/-- One CPU, slices of one slot, and one program of two instructions. -/
def oneProgram : Config ℕ where
  timeSlot := 1
  numCpus := 1
  programs := [⟨[10, 20], 0⟩]

/-- The loader adds the program, the CPU runs its first instruction, and both
wait for the next slot. -/
def firstSlice : List Thread :=
  List.replicate 4 Thread.loader ++ List.replicate 5 (Thread.cpu 0) ++
  List.replicate 4 (Thread.timer (.device 0)) ++ List.replicate 4 (Thread.timer (.device 1)) ++
  List.replicate 23 (Thread.timer .timer) ++ List.replicate 3 (Thread.timer (.device 1))

/-- The end of the first slice: the program is put back after one run. -/
theorem dispatch_first_slice :
    ∃ tr s t, moves oneProgram firstSlice (start fifo) = some (tr, s) ∧
      Step oneProgram fifo s (.put 0 0) t ∧ s.pc 0 < 2 ∧ sinceDispatch 0 tr = oneProgram.timeSlot ∧
      executed 0 tr = [10, 20].take (s.pc 0) := by
  have hmoves : (moves oneProgram firstSlice (start fifo)).any
      (fun x => (move oneProgram x.2 (.cpu 0)).any fun y => y.1 = .put 0 0) = true := by
    decide +kernel
  obtain ⟨⟨tr, s⟩, htr, hput⟩ := (Option.any_eq_true _ _).mp hmoves
  obtain ⟨⟨lab, t⟩, hst, hlab⟩ := (Option.any_eq_true _ _).mp hput
  obtain rfl : lab = .put 0 0 := of_decide_eq_true hlab
  obtain ⟨-, hexec, -, hnext⟩ := dispatch_in_slices (by decide) (run_of_moves htr)
  obtain ⟨hlt, hruns⟩ := (hnext _ _ (step_of_move hst)).2.2.1 0 0 rfl
  exact ⟨tr, s, t, htr, step_of_move hst, hlt, hruns, (hexec 0).1⟩

end Os

end SimpleOs
