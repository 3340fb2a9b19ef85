import SimpleOs.OsClock

/-!
# The schedule of the loader

The loader adds one program per slot, in the order of the configuration file, and waits
with each of them until the clock has reached its start time. So the slots of all
calls of `add_proc` are known before the system starts: program `i` is added in slot
`loadTick i`, whatever the CPUs do and however the threads interleave. The clock has
64 bits, so a start time that has passed may be missed, and is then waited for until
the clock has wrapped around.

Results:
1. `loadTick_isGreatest`: the schedule in closed form, where the clock does not wrap.
2. `LoadInv.step`: every step keeps to the schedule.
3. `load_schedule`: hence a program is added in its slot, and not later; and `done` is
   set in the slot after the last program's.
-/

namespace SimpleOs

namespace Os

/-! ## Waiting for a start time -/

/-- The first slot from slot `k` on in which the clock has reached `start`. -/
def waitFrom (start : BitVec 64) (k : ℕ) : ℕ :=
  k + (start.toNat - k % 2 ^ 64)

theorem le_waitFrom (start : BitVec 64) (k : ℕ) : k ≤ waitFrom start k :=
  Nat.le_add_right _ _

theorem ofNat_lt_iff {start : BitVec 64} {k : ℕ} :
    BitVec.ofNat 64 k < start ↔ k % 2 ^ 64 < start.toNat := by
  rw [BitVec.lt_def, BitVec.toNat_ofNat]

/-- Waiting does not wrap the clock. -/
theorem waitFrom_mod (start : BitVec 64) (k : ℕ) :
    waitFrom start k % 2 ^ 64 = max start.toNat (k % 2 ^ 64) := by
  have hstart := start.isLt
  unfold waitFrom
  omega

/-- The clock has not reached `start` before. -/
theorem lt_waitFrom_iff {start : BitVec 64} {k j : ℕ} (hk : k ≤ j) (hj : j ≤ waitFrom start k) :
    j < waitFrom start k ↔ BitVec.ofNat 64 j < start := by
  have hstart := start.isLt
  rw [ofNat_lt_iff]
  unfold waitFrom at hj ⊢
  omega

/-- `waitFrom` is the first slot in which the clock has reached `start`. -/
theorem waitFrom_isLeast (start : BitVec 64) (k : ℕ) :
    IsLeast {j | k ≤ j ∧ start ≤ BitVec.ofNat 64 j} (waitFrom start k) := by
  refine ⟨⟨le_waitFrom _ _, ?_⟩, fun j ⟨hk, hj⟩ => ?_⟩
  · rw [← BitVec.not_lt, ← lt_waitFrom_iff (le_waitFrom start k) le_rfl]
    exact lt_irrefl _
  · by_contra hlt
    rw [not_le] at hlt
    exact BitVec.not_lt.mpr hj ((lt_waitFrom_iff hk hlt.le).mp hlt)

/-! ## The schedule -/

section Schedule

variable {ι : Type*} (cfg : Config ι)

/-- The slot in which the loader begins to wait for program `i`. -/
def Config.earliest : ℕ → ℕ
  | 0 => 0
  | i + 1 => waitFrom (cfg.startTime i) (earliest i) + 1

/-- The slot in which the loader adds program `i`. -/
def Config.loadTick (i : ℕ) : ℕ :=
  waitFrom (cfg.startTime i) (cfg.earliest i)

theorem earliest_succ (i : ℕ) : cfg.earliest (i + 1) = cfg.loadTick i + 1 := rfl

theorem earliest_le_loadTick (i : ℕ) : cfg.earliest i ≤ cfg.loadTick i :=
  le_waitFrom _ _

/-- One program per slot. -/
theorem loadTick_strictMono : StrictMono cfg.loadTick :=
  strictMono_nat_of_lt_succ fun i => earliest_le_loadTick cfg (i + 1)

theorem earliest_monotone : Monotone cfg.earliest :=
  monotone_nat_of_le_succ fun i => Nat.le_succ_of_le (earliest_le_loadTick cfg i)

theorem loadTick_lt_earliest {i j : ℕ} (h : i < j) : cfg.loadTick i < cfg.earliest j :=
  earliest_monotone cfg h

theorem waitFrom_eq_max {start : BitVec 64} {k : ℕ} (hwrap : waitFrom start k < 2 ^ 64) :
    waitFrom start k = max start.toNat k := by
  have hk : k % 2 ^ 64 = k := Nat.mod_eq_of_lt (lt_of_le_of_lt (le_waitFrom start k) hwrap)
  rw [← Nat.mod_eq_of_lt hwrap, waitFrom_mod, hk]

/-- Without a wrap of the clock, a program waits for its start time or for the programs
before it: program `i` is added in the last of the slots `start_time[j] + (i - j)`. -/
theorem loadTick_isGreatest {i : ℕ} (hwrap : cfg.loadTick i < 2 ^ 64) :
    IsGreatest ((fun j => (cfg.startTime j).toNat + (i - j)) '' Set.Iic i) (cfg.loadTick i) := by
  induction i with
  | zero =>
    have heq : cfg.loadTick 0 = (cfg.startTime 0).toNat :=
      (waitFrom_eq_max hwrap).trans (max_eq_left (Nat.zero_le _))
    rw [heq]
    refine ⟨⟨0, Set.mem_Iic.mpr le_rfl, rfl⟩, ?_⟩
    rintro _ ⟨j, hj, rfl⟩
    rw [Nat.le_zero.mp hj]
    exact le_rfl
  | succ i ih =>
    obtain ⟨⟨j, hj, hji⟩, hmax⟩ :=
      ih (lt_trans (loadTick_strictMono cfg i.lt_succ_self) hwrap)
    have heq : cfg.loadTick (i + 1) = max (cfg.startTime (i + 1)).toNat (cfg.loadTick i + 1) :=
      waitFrom_eq_max hwrap
    -- Every program before this one is one slot further away.
    have hshift : ∀ j ≤ i, (cfg.startTime j).toNat + (i + 1 - j) =
        (cfg.startTime j).toNat + (i - j) + 1 := by
      intro j hj
      rw [Nat.succ_sub hj, Nat.add_assoc]
    rw [heq]
    constructor
    · rcases max_choice (cfg.startTime (i + 1)).toNat (cfg.loadTick i + 1) with hmax' | hmax'
      · exact ⟨i + 1, Set.mem_Iic.mpr le_rfl, by simp [hmax']⟩
      · exact ⟨j, Nat.le_succ_of_le hj,
          ((hshift j hj).trans (congrArg (· + 1) hji)).trans hmax'.symm⟩
    · rintro _ ⟨j, hj, rfl⟩
      rcases Nat.le_succ_iff.mp hj with hle | rfl
      · refine le_trans (hshift j hle).le (le_max_of_le_right (Nat.succ_le_succ ?_))
        exact hmax ⟨j, hle, rfl⟩
      · simp

end Schedule

/-! ## The loader keeps to the schedule -/

variable {ι π : Type*} {cfg : Config ι} {Q : ReadyQueue π} {s s' : State π} {lab : Label ι}

/-- Where the loader stands in slot `v`, with `i` programs added. -/
def LoaderPc.onSchedule (cfg : Config ι) (i v : ℕ) : LoaderPc → Prop
  | .whileLoad | .setDone | .leave => v = cfg.earliest i
  | .waitStart => cfg.earliest i ≤ v ∧ v ≤ cfg.loadTick i
  | .waitSlot => cfg.earliest i ≤ v ∧ v < cfg.loadTick i
  | .addProc => v = cfg.loadTick i
  | .slot => v + 1 = cfg.earliest i
  | .stopped => cfg.earliest i ≤ v

/-- The loader is where the schedule says after `k` ticks. -/
def LoadInv (cfg : Config ι) (s : State π) (k : ℕ) : Prop :=
  s.loader.pc.onSchedule cfg s.loader.i (s.slotOf k Config.loaderDevice)

/-- A statement of the loader. -/
theorem LoaderMove.onSchedule {k : ℕ} (hm : LoaderMove cfg Q s lab s')
    (htime : s.timer.time = BitVec.ofNat 64 k) (h : s.loader.pc.onSchedule cfg s.loader.i k) :
    s'.loader.pc.onSchedule cfg s'.loader.i k := by
  cases hm with
  | load hpc =>
    rw [hpc] at h
    exact ⟨h.ge, h.le.trans (earliest_le_loadTick cfg _)⟩
  | allLoaded hpc | setDone hpc =>
    rw [hpc] at h
    exact h
  | early hpc hlt =>
    rw [hpc] at h
    rw [htime] at hlt
    exact ⟨h.1, (lt_waitFrom_iff h.1 h.2).mpr hlt⟩
  | onTime hpc hle =>
    rw [hpc] at h
    rw [htime] at hle
    refine le_antisymm h.2 (le_of_not_gt fun hlt => ?_)
    exact BitVec.not_lt.mpr hle ((lt_waitFrom_iff h.1 h.2).mp hlt)
  | addProc hpc =>
    rw [hpc] at h
    exact congrArg (· + 1) h

/-- A step of another thread leaves the loader where it is. -/
theorem LoadInv.frame {k : ℕ} (ht : Threads cfg s) (hst : Step cfg Q s lab s')
    (hloader : s'.loader = s.loader) (hcall : ¬ lab.calls Config.loaderDevice)
    (h : LoadInv cfg s k) : LoadInv cfg s' (k + if s.ticks lab then 1 else 0) := by
  obtain ⟨-, hslot⟩ := slotOf_step (k := k) ht hst loaderDevice_lt hcall
  rw [LoadInv, hloader]
  cases hin : (s.timer.device Config.loaderDevice).pc.inDetach with
  | false =>
    rw [hslot hin]
    exact h
  | true =>
    -- The loader has ended, and the clock may go on.
    have hstopped : s.loader.pc = .stopped := ht.loader.ended hin
    rw [LoadInv, hstopped, slotOf_inDetach ht loaderDevice_lt hin] at h
    rw [hstopped]
    exact le_trans h (le_trans (Nat.le_add_right _ _) (slotOf_bounds _ _ _).1)

/-- The calls of the loader. -/
theorem LoadInv.loaderCall {k : ℕ} {a : Timer.Act} {pc : LoaderPc} {t : Timer.State}
    (ht : Threads cfg s) (ht' : Threads cfg { s with loader := ⟨pc, s.loader.i⟩, timer := t })
    (hcall : s.loader.pc.call Config.loaderDevice = some (a, pc))
    (hst : Timer.step cfg.devices s.timer a = some t) (h : LoadInv cfg s k) :
    LoadInv cfg { s with loader := ⟨pc, s.loader.i⟩, timer := t }
      (k + if s.timer.ticks a then 1 else 0) := by
  rcases LoaderPc.call_eq hcall with ⟨rfl, hpc⟩ | ⟨rfl, hpc, rfl⟩
  · obtain ⟨hv, hv'⟩ := slotOf_nextSlot (k := k)
      { s with loader := ⟨pc, s.loader.i⟩, timer := t } ht hst rfl
    rw [Timer.ticks_of_call (.inl rfl)]
    show pc.onSchedule cfg s.loader.i _
    rw [LoadInv, hv] at h
    rw [if_neg Bool.false_ne_true, Nat.add_zero, hv']
    rcases hpc with ⟨hpc, rfl⟩ | ⟨hpc, rfl⟩
    · rw [hpc] at h
      exact ⟨Nat.le_succ_of_le h.1, h.2⟩
    · rw [hpc] at h
      exact h
  · rw [Timer.ticks_of_call (.inr rfl)]
    obtain ⟨-, hw, -, hdev⟩ := timer_call (.inr rfl) hst
    rw [LoadInv, hpc, slotOf_working ht loaderDevice_lt hw] at h
    exact h.ge.trans (slotOf_bounds _ _ _).1

/-- Every step keeps to the schedule. -/
theorem LoadInv.step {k : ℕ} (ht : Threads cfg s) (hst : Step cfg Q s lab s')
    (htime : s.timer.time = BitVec.ofNat 64 k) (h : LoadInv cfg s k) :
    LoadInv cfg s' (k + if s.ticks lab then 1 else 0) := by
  have ht' := ht.step hst
  cases hst with
  | cpu hc hw hget hm =>
    have hmove := cpuRoutine_move hget hm
    exact h.frame ht (.cpu hc hw hget hm) hmove.frame.2.1 (not_calls_of_none hmove.timerAct _)
  | @cpuCall c a pc t hc hcall hst =>
    exact h.frame ht (.cpuCall (Q := Q) hc hcall hst) rfl
      (not_calls_of_cpuCall hcall (device_ne_loader hc))
  | loader hw hm =>
    have hmove := ldRoutine_move hm
    have htimer : s'.timer = s.timer := hmove.frame.2.1
    rw [LoadInv, slotOf_working ht loaderDevice_lt hw] at h
    rw [LoadInv, not_ticks hmove.timerAct, if_neg Bool.false_ne_true, Nat.add_zero,
      slotOf_working ht' loaderDevice_lt (by rw [htimer]; exact hw)]
    exact hmove.onSchedule htime h
  | loaderCall hcall hst => exact h.loaderCall ht ht' hcall hst
  | timer ha hst =>
    exact h.frame ht (.timer (Q := Q) ha hst) rfl (not_calls_of_timer ha _)

/-- The schedule of the loader, at the end of every run. -/
theorem loadInv_of_run {tr : List (Label ι)} {k : ℕ}
    (hr : ((system cfg Q).counted State.ticks).Run (start Q, 0) tr (s, k)) : LoadInv cfg s k := by
  have hstart : LoadInv cfg (start Q) 0 := rfl
  refine hr.trace_invariant (I := fun _ t => LoadInv cfg t.1 t.2) hstart ?_
  rintro tr ⟨s, k⟩ lab ⟨s', k'⟩ hrun h ⟨hst, hk⟩
  have ht := threads_of_reachable ⟨start Q, tr, rfl, hrun.uncount⟩
  dsimp only at hk ⊢
  rw [hk]
  exact h.step ht hst (time_eq hrun)

/-- A step adds the program that the loader's counter names, or none. -/
theorem step_add (hst : Step cfg Q s lab s') :
    lab = .add s.loader.i ∧ s'.loader.i = s.loader.i + 1 ∧ s.loader.pc = .addProc ∨
      (∀ i, lab ≠ .add i) ∧ s'.loader.i = s.loader.i := by
  cases hst with
  | cpu hc hw hget hm =>
    have hmove := cpuRoutine_move hget hm
    refine .inr ⟨?_, by rw [hmove.frame.2.1]⟩
    rintro i rfl
    cases hmove
  | loader hw hm =>
    cases ldRoutine_move hm with
    | addProc hpc => exact .inl ⟨rfl, rfl, hpc⟩
    | _ => exact .inr ⟨nofun, rfl⟩
  | cpuCall | loaderCall | timer => exact .inr ⟨nofun, rfl⟩

/-- The programs that a run has added are those below the loader's counter. -/
theorem mem_add_iff {tr : List (Label ι)} (hr : (system cfg Q).Run (start Q) tr s) (i : ℕ) :
    Label.add i ∈ tr ↔ i < s.loader.i := by
  refine hr.trace_invariant (I := fun tr s => Label.add i ∈ tr ↔ i < s.loader.i) ?_ ?_
  · simp [start]
  · rintro tr s lab s' - ih hst
    rw [List.mem_append, List.mem_singleton, ih]
    rcases step_add hst with ⟨rfl, hi, -⟩ | ⟨hlab, hi⟩
    · rw [hi, Label.add.injEq, Nat.lt_succ_iff_lt_or_eq]
    · rw [hi, or_iff_left (hlab i).symm]

/-- Before the slot of the next program is over, the loader has not gone past it. -/
theorem onSchedule_le {i v : ℕ} {pc : LoaderPc} (h : pc.onSchedule cfg i v)
    (hpc : pc ≠ .stopped) : v ≤ cfg.loadTick i := by
  have hearliest := earliest_le_loadTick cfg i
  cases pc with
  | whileLoad | setDone | leave => exact le_of_eq_of_le h hearliest
  | waitStart => exact h.2
  | waitSlot => exact h.2.le
  | addProc => exact le_of_eq h
  | slot => exact le_trans (Nat.le_succ_of_le le_rfl) (le_of_eq_of_le h hearliest)
  | stopped => exact absurd rfl hpc

/-- All programs that have been added had their slots. -/
theorem earliest_le_onSchedule {i v : ℕ} {pc : LoaderPc} (h : pc.onSchedule cfg i v) :
    cfg.earliest i ≤ v + if pc = .slot then 1 else 0 := by
  cases pc with
  | whileLoad | setDone | leave | slot => exact ge_of_eq h
  | waitStart | waitSlot => exact h.1
  | addProc => exact le_of_le_of_eq (earliest_le_loadTick cfg i) (Eq.symm h)
  | stopped => exact h

variable {tr : List (Label ι)} {k : ℕ}

/-- A program is added in its slot. -/
theorem add_tick {i : ℕ} (hr : ((system cfg Q).counted State.ticks).Run (start Q, 0) tr (s, k))
    (hst : Step cfg Q s (.add i) s') : k = cfg.loadTick i := by
  have ht := threads_of_reachable ⟨start Q, tr, rfl, hr.uncount⟩
  rcases step_add hst with ⟨heq, -, hpc⟩ | ⟨hlab, -⟩
  · cases heq
    have hinv := loadInv_of_run hr
    rwa [LoadInv, slotOf_loader ht (by rw [hpc]; exact ⟨nofun, nofun⟩), hpc] at hinv
  · exact absurd rfl (hlab i)

/-- A program whose slot is over has been added. -/
theorem added_of_tick {i : ℕ} (ht : Threads cfg s) (h : LoadInv cfg s k)
    (hi : i < cfg.programs.length) (htick : cfg.loadTick i < k) : i < s.loader.i := by
  by_contra hle
  rw [not_lt] at hle
  have hpc : s.loader.pc ≠ .stopped := by
    intro hpc
    rw [ht.counter.finished (.inr (.inr hpc))] at hle
    exact absurd hi (not_lt.mpr hle)
  have hslot := (slotOf_bounds s k Config.loaderDevice).1
  exact absurd (htick.trans_le (hslot.trans (onSchedule_le h hpc)))
    (not_lt.mpr ((loadTick_strictMono cfg).monotone hle))

/-- A program that has been added had its slot. -/
theorem tick_of_added {i : ℕ} (ht : Threads cfg s) (h : LoadInv cfg s k) (hi : i < s.loader.i) :
    cfg.loadTick i ≤ k := by
  have hle := (loadTick_lt_earliest cfg hi).trans_le (earliest_le_onSchedule h)
  split at hle
  · next hpc =>
    rw [slotOf_loader ht (by rw [hpc]; exact ⟨nofun, nofun⟩)] at hle
    exact Nat.le_of_lt_succ hle
  · exact Nat.le_of_lt_succ (hle.trans_le (slotOf_bounds _ _ _).2)

/-- `done` is set in the slot after the last program's. -/
theorem done_tick (ht : Threads cfg s) (h : LoadInv cfg s k) :
    (cfg.earliest cfg.programs.length < k → s.done = true) ∧
      (s.done = true → cfg.earliest cfg.programs.length ≤ k) := by
  constructor
  · intro hk
    by_contra hdone
    have hpc := not_or.mp (mt ht.counter.done_iff.mpr hdone)
    have hslot := hk.trans_le (slotOf_bounds s k Config.loaderDevice).1
    rcases ht.counter.le.lt_or_eq with hlt | heq
    · have hle := onSchedule_le h hpc.2
      exact absurd (hslot.trans_le hle) (not_lt.mpr (loadTick_lt_earliest cfg hlt).le)
    · have hloading := ht.counter.loading
      rw [LoadInv, heq] at h
      rw [heq] at hloading
      cases hp : s.loader.pc with
      | whileLoad | setDone => rw [hp] at h; exact absurd hslot (not_lt.mpr (le_of_eq h))
      | slot => rw [hp] at h; exact absurd hslot (not_lt.mpr (Nat.le_of_succ_le (le_of_eq h)))
      | waitStart => exact absurd (hloading (.inl hp)) (lt_irrefl _)
      | waitSlot => exact absurd (hloading (.inr (.inl hp))) (lt_irrefl _)
      | addProc => exact absurd (hloading (.inr (.inr hp))) (lt_irrefl _)
      | leave => exact absurd hp hpc.1
      | stopped => exact absurd hp hpc.2
  · intro hdone
    have hpc := ht.counter.done_iff.mp hdone
    have hend : s.loader.i = cfg.programs.length := ht.counter.finished (.inr hpc)
    have hle := earliest_le_onSchedule h
    rw [hend, slotOf_loader ht (by rcases hpc with hp | hp <;> rw [hp] <;> exact ⟨nofun, nofun⟩),
      if_neg (by rcases hpc with hp | hp <;> rw [hp] <;> nofun)] at hle
    exact hle

/-- The schedule of the loader, for every configuration and every interleaving. The next
call of `add_proc` comes in the slot of its program; every program whose slot is over
has been added, and none before its slot; and `done` is set in the slot after the last
one. -/
theorem load_schedule (hr : ((system cfg Q).counted State.ticks).Run (start Q, 0) tr (s, k)) :
    (∀ i s', Step cfg Q s (.add i) s' → k = cfg.loadTick i) ∧
    (∀ i < cfg.programs.length, cfg.loadTick i < k → Label.add i ∈ tr) ∧
    (∀ i, Label.add i ∈ tr → cfg.loadTick i ≤ k) ∧
    (cfg.earliest cfg.programs.length < k → s.done = true) ∧
    (s.done = true → cfg.earliest cfg.programs.length ≤ k) := by
  have ht := threads_of_reachable ⟨start Q, tr, rfl, hr.uncount⟩
  have hinv := loadInv_of_run hr
  have hadd := mem_add_iff hr.uncount
  exact ⟨fun _ _ => add_tick hr, fun i hi htick => (hadd i).mpr (added_of_tick ht hinv hi htick),
    fun i hi => tick_of_added ht hinv ((hadd i).mp hi), done_tick ht hinv⟩

/-- One CPU, and two programs in the wrong order: the first one starts in slot 1. -/
def lateProgram : Config ℕ where
  timeSlot := 1
  numCpus := 1
  programs := [⟨[10], 1⟩, ⟨[20], 0⟩]

/-- The loader waits for slot 1, and is about to add the first program. -/
def lateStart : List Thread :=
  List.replicate 3 Thread.loader ++ List.replicate 3 (Thread.cpu 0) ++
  List.replicate 4 (Thread.timer (.device 0)) ++ List.replicate 4 (Thread.timer (.device 1)) ++
  List.replicate 23 (Thread.timer .timer) ++ List.replicate 3 (Thread.timer (.device 0)) ++
  [Thread.loader]

/-- The first program is added in slot 1, and the second one has slot 2. -/
theorem load_schedule_late :
    ∃ tr s s' k, ((system lateProgram fifo).counted State.ticks).Run (start fifo, 0) tr (s, k) ∧
      Step lateProgram fifo s (.add 0) s' ∧ k = 1 ∧ lateProgram.loadTick 1 = 2 := by
  have hmoves : (moves lateProgram lateStart (start fifo)).any
      (fun x => (move lateProgram x.2 .loader).any fun y => y.1 = .add 0) = true := by
    decide +kernel
  obtain ⟨⟨tr, s⟩, htr, hadd⟩ := (Option.any_eq_true _ _).mp hmoves
  obtain ⟨⟨lab, t⟩, hst, hlab⟩ := (Option.any_eq_true _ _).mp hadd
  obtain rfl : lab = .add 0 := of_decide_eq_true hlab
  obtain ⟨k, hk⟩ := (run_of_moves htr).exists_counted State.ticks 0
  exact ⟨tr, s, t, k, hk, step_of_move hst,
    ((load_schedule hk).1 0 t (step_of_move hst)).trans (by decide), by decide⟩

end Os

end SimpleOs
