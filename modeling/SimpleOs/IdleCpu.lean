import SimpleOs.Shutdown

/-!
# Idle CPUs

A CPU that finds no process tests `done` and leaves its loop, but only behind the
calls of `get_proc` it makes with a process in hand. Where the iteration began
without one, `next_slot; continue` skips the test, so a CPU that is idle when
`done` is set comes back to the same call in every slot.

Results:
1. `leaves_iff`: with `done` set, a CPU that gets `NULL` leaves at once exactly if
   its iteration began with a process.
2. `statements_le`: once no CPU is idle, `done` is set and `get_proc` returns `NULL`
   from then on, the statements that are left are bounded.
3. `ends_iff`: the whole system comes to its end exactly if no CPU is idle.
-/

namespace SimpleOs

namespace Os

variable {ι π : Type*} {cfg : Config ι} {Q : ReadyQueue π}

/-! ## Leaving the loop -/

/-- How many statements of the CPU are left to the call of `detach_event`, or `none`
inside the loop. -/
def CpuPc.toExit : CpuPc → Option ℕ
  | .recheck => some 2
  | .leave => some 1
  | .stopped => some 0
  | _ => none

/-- The step is one of CPU `c`. -/
def Label.ofCpu (cfg : Config ι) (c : ℕ) : Label ι → Bool
  | .cpu c' | .got c' _ | .put c' _ | .free c' _ | .run c' _ _ => c' = c
  | .timer (.nextSlot d) | .timer (.detachEvent d) => d = cfg.device c
  | _ => false

/-- The step is a statement of a thread: no spurious wake-up, and not the store of
`stop_timer`. -/
def Label.isStatement : Label ι → Bool
  | .timer a => a.isStatement || a.isCall
  | _ => true

/-- CPU `c` leaves its loop and detaches in this iteration: whatever the other threads
do, its next statements are the exit and the call of `detach_event`, and nothing
holds them up. -/
def Leaves (cfg : Config ι) (Q : ReadyQueue π) (c : ℕ) (s : State π) : Prop :=
  ∀ tr t, (system cfg Q).Run s tr t →
    (∃ k, (t.cpu c).pc.toExit = some k ∧ tr.countP (Label.ofCpu cfg c) + k = 2) ∧
    ((t.cpu c).pc = .stopped ∨
      ∃ lab t', Step cfg Q t lab t' ∧ lab.ofCpu cfg c = true)

theorem CpuMove.ofCpu {s s' : State π} {lab : Label ι} {c' : ℕ} (hm : CpuMove cfg Q s c' lab s')
    (c : ℕ) : lab.ofCpu cfg c = decide (c' = c) := by
  cases hm <;> rfl

theorem CpuMove.isStatement {s s' : State π} {lab : Label ι} {c : ℕ}
    (hm : CpuMove cfg Q s c lab s') : lab.isStatement = true := by
  cases hm <;> rfl

/-- What a step does to CPU `c`: a statement or a call of its own, or nothing. -/
theorem step_cpu {s s' : State π} {lab : Label ι} {c : ℕ} (hc : c < cfg.numCpus)
    (hst : Step cfg Q s lab s') :
    lab.ofCpu cfg c = false ∧ s'.cpu c = s.cpu c ∨
      lab.ofCpu cfg c = true ∧ (CpuMove cfg Q s c lab s' ∨
        ∃ a pc, (s.cpu c).pc.call (cfg.device c) = some (a, pc) ∧
          s'.cpu c = { s.cpu c with pc := pc }) := by
  cases hst with
  | @cpu _ c' r q lab hc' hw hget hm =>
    have hmove := cpuRoutine_move hget hm
    rw [hmove.ofCpu c]
    rcases eq_or_ne c' c with rfl | hne
    · exact .inr ⟨decide_eq_true rfl, .inl hmove⟩
    · exact .inl ⟨decide_eq_false hne, cpuMove_other hmove hne.symm⟩
  | @cpuCall c' a pc t hc' hcall ht =>
    have hlab : (Label.timer a : Label ι).ofCpu cfg c = decide (cfg.device c' = cfg.device c) := by
      rcases CpuPc.call_eq hcall with ⟨rfl, -, -⟩ | ⟨rfl, -, -⟩ <;> rfl
    rw [hlab]
    rcases eq_or_ne c' c with rfl | hne
    · exact .inr ⟨decide_eq_true rfl, .inr ⟨a, pc, hcall, Function.update_self ..⟩⟩
    · exact .inl ⟨decide_eq_false fun h => hne (device_inj hc' hc h),
        Function.update_of_ne hne.symm ..⟩
  | loader hw hm =>
    have hmove := ldRoutine_move hm
    refine .inl ⟨?_, by rw [hmove.frame.1]⟩
    cases hmove <;> rfl
  | @loaderCall a pc t hcall ht =>
    refine .inl ⟨?_, rfl⟩
    have hne := (device_ne_loader hc).symm
    rcases LoaderPc.call_eq hcall with ⟨rfl, -⟩ | ⟨rfl, -⟩
    · exact decide_eq_false hne
    · exact decide_eq_false hne
  | @timer a t ha ht =>
    refine .inl ⟨?_, rfl⟩
    cases a with
    | nextSlot d | detachEvent d => cases ha
    | _ => rfl

/-- `done` stays set. -/
theorem step_done {s s' : State π} {lab : Label ι} (hst : Step cfg Q s lab s')
    (hdone : s.done = true) : s'.done = true := by
  cases hst with
  | cpu hc hw hget hm => rw [(cpuRoutine_move hget hm).frame.2.2, hdone]
  | loader hw hm => exact (ldRoutine_move hm).frame.2.2.2 hdone
  | cpuCall | loaderCall | timer => exact hdone

/-- With `done` set, a CPU past its final `get_proc` goes on to the end, and every step
of its own takes it closer. -/
theorem pastGet_step {s s' : State π} {lab : Label ι} {c k : ℕ} (hc : c < cfg.numCpus)
    (hst : Step cfg Q s lab s') (hdone : s.done = true) (hpast : (s.cpu c).pastGet)
    (hk : (s.cpu c).pc.toExit = some k) :
    (s'.cpu c).pastGet ∧ ∃ k', (s'.cpu c).pc.toExit = some k' ∧
      (if lab.ofCpu cfg c then 1 else 0) + k' = k := by
  have hpos : ∀ pc, (s.cpu c).pc = pc → pc = .recheck ∨ pc = .leave ∨ pc = .stopped := by
    rintro pc rfl
    exact hpast.imp_left And.left
  rcases step_cpu hc hst with ⟨hlab, hcpu⟩ | ⟨hlab, hmove | ⟨a, pc, hcall, hcpu⟩⟩
  · rw [hcpu, hlab]
    exact ⟨hpast, k, hk, Nat.zero_add k⟩
  · rw [hlab]
    cases hmove with
    | exit hpc hproc =>
      rw [hpc] at hk
      cases hk
      simp only [setCpu_cpu, if_true]
      exact ⟨.inr (.inl rfl), 1, rfl, rfl⟩
    | noProc hpc | finished hpc | expired hpc | running hpc | exec hpc =>
      exact absurd (hpos _ hpc) nofun
    | got hgets =>
      rcases hpos _ rfl with hpc | hpc | hpc <;> rw [hpc] at hgets <;> cases hgets
    | idle hpc hproc hnot => exact absurd (hdone.symm.trans hnot) nofun
    | dispatch hpc hproc =>
      rcases hpast with ⟨-, hnone⟩ | h | h
      · exact absurd (hnone.symm.trans hproc) nofun
      · exact absurd (hpc.symm.trans h) nofun
      · exact absurd (hpc.symm.trans h) nofun
  · rw [hlab, hcpu]
    rcases CpuPc.call_eq hcall with ⟨-, hpc, rfl⟩ | ⟨-, hpc, rfl⟩
    · exact absurd (hpos _ hpc) nofun
    · rw [hpc] at hk
      cases hk
      exact ⟨.inr (.inr rfl), 0, rfl, rfl⟩

/-- The device of a CPU that is neither inside `next_slot` nor stopped is at work. -/
theorem Threads.working {s : State π} {c : ℕ} (h : Threads cfg s) (hc : c < cfg.numCpus)
    (htop : (s.cpu c).pc ≠ .top) (hstop : (s.cpu c).pc ≠ .stopped) :
    (s.timer.device (cfg.device c)).pc = .working :=
  (h.cpu c hc).eq_working htop hstop

/-- A call of the timer by a thread whose device is at work. -/
theorem call_step {n : ℕ} {t : Timer.State} {d : ℕ} {a : Timer.Act} (hd : d < n)
    (hworking : (t.device d).pc = .working) (ha : a = .nextSlot d ∨ a = .detachEvent d) :
    ∃ t', Timer.step n t a = some t' := by
  rcases ha with rfl | rfl
  · exact ⟨_, if_pos ⟨hd, hworking⟩⟩
  · exact ⟨_, if_pos ⟨hd, hworking⟩⟩

/-- A CPU outside its calls of the timer has a statement to make. -/
theorem cpuRoutine_some {s : State π} {c : ℕ} (r : Option ℕ) (q : π)
    (hcall : (s.cpu c).pc.call (cfg.device c) = none) (hstop : (s.cpu c).pc ≠ .stopped)
    (hexec : (s.cpu c).pc = .exec → (s.cpu c).proc ≠ none) :
    ∃ x, cpuRoutine cfg Q s c r q = some x := by
  unfold cpuRoutine
  cases hpc : (s.cpu c).pc with
  | top =>
    simp only [hpc]
    cases (s.cpu c).proc with
    | none => exact ⟨_, rfl⟩
    | some p =>
      dsimp only
      split
      · exact ⟨_, rfl⟩
      · split <;> exact ⟨_, rfl⟩
  | getFirst | getAfterFree | getAfterPut =>
    simp only [hpc]
    exact ⟨_, rfl⟩
  | recheck =>
    simp only [hpc]
    cases (s.cpu c).proc with
    | none =>
      dsimp only
      split <;> exact ⟨_, rfl⟩
    | some p => exact ⟨_, rfl⟩
  | exec =>
    obtain ⟨p, hp⟩ := Option.ne_none_iff_exists'.mp (hexec hpc)
    simp only [hpc, hp]
    exact ⟨_, rfl⟩
  | slot | leave =>
    rw [hpc] at hcall
    cases hcall
  | stopped => exact absurd hpc hstop

/-- A CPU whose device is at work makes a statement, or the call it is at. -/
theorem Threads.cpu_move {s : State π} {c : ℕ} {r : Option ℕ} {q : π} (ht : Threads cfg s)
    (hc : c < cfg.numCpus) (hworking : (s.timer.device (cfg.device c)).pc = .working)
    (hexec : (s.cpu c).pc = .exec → (s.cpu c).proc ≠ none)
    (hget : (s.cpu c).pc.gets = true → Q.getProc s.queue r q) :
    ∃ lab s', Step cfg Q s lab s' ∧ lab.ofCpu cfg c = true ∧ lab.isStatement = true := by
  have hdevice := ht.cpu c hc
  rw [CpuDevice, hworking] at hdevice
  cases hcall : (s.cpu c).pc.call (cfg.device c) with
  | none =>
    obtain ⟨⟨lab, s'⟩, hroutine⟩ := cpuRoutine_some (Q := Q) r q hcall hdevice hexec
    have hmove := cpuRoutine_move hget hroutine
    exact ⟨lab, s', .cpu hc hworking hget hroutine, by simp [hmove.ofCpu c], hmove.isStatement⟩
  | some call =>
    obtain ⟨a, pc⟩ := call
    have ha := (CpuPc.call_eq hcall).imp And.left And.left
    obtain ⟨t, hst⟩ := call_step (device_lt cfg c) hworking ha
    refine ⟨_, _, .cpuCall hc hcall hst, ?_⟩
    rcases ha with rfl | rfl <;> exact ⟨decide_eq_true rfl, rfl⟩

/-- A CPU past its final `get_proc` can go on to the end. -/
theorem pastGet_move {s : State π} {c : ℕ} (ht : Threads cfg s) (hc : c < cfg.numCpus)
    (hpast : (s.cpu c).pastGet) :
    (s.cpu c).pc = .stopped ∨ ∃ lab s', Step cfg Q s lab s' ∧ lab.ofCpu cfg c = true := by
  refine or_iff_not_imp_left.mpr fun hstop => ?_
  have hpc : (s.cpu c).pc ≠ .top ∧ (s.cpu c).pc ≠ .exec ∧ (s.cpu c).pc.gets = false := by
    rcases hpast with ⟨hpc, -⟩ | hpc | hpc
    · rw [hpc]
      decide
    · rw [hpc]
      decide
    · exact absurd hpc hstop
  have hworking := ht.working hc hpc.1 hstop
  have hget : (s.cpu c).pc.gets = true → Q.getProc s.queue none s.queue := fun hgets =>
    absurd (hpc.2.2.symm.trans hgets) Bool.false_ne_true
  obtain ⟨lab, s', hst, hlab, -⟩ :=
    ht.cpu_move hc hworking (fun hexec => absurd hexec hpc.2.1) hget
  exact ⟨lab, s', hst, hlab⟩

theorem leaves_of_recheck {s : State π} {c : ℕ} (ht : Threads cfg s) (hc : c < cfg.numCpus)
    (hdone : s.done = true) (hpc : (s.cpu c).pc = .recheck) (hproc : (s.cpu c).proc = none) :
    Leaves cfg Q c s := by
  intro tr t hr
  have hinv : Threads cfg t ∧ t.done = true ∧ (t.cpu c).pastGet ∧
      ∃ k, (t.cpu c).pc.toExit = some k ∧ tr.countP (Label.ofCpu cfg c) + k = 2 := by
    refine hr.trace_invariant (I := fun tr t => Threads cfg t ∧ t.done = true ∧
      (t.cpu c).pastGet ∧
      ∃ k, (t.cpu c).pc.toExit = some k ∧ tr.countP (Label.ofCpu cfg c) + k = 2)
      ⟨ht, hdone, .inl ⟨hpc, hproc⟩, 2, by rw [hpc]; rfl, rfl⟩ ?_
    rintro tr t lab t' - ⟨ht, hdone, hpast, k, hk, hcount⟩ hst
    obtain ⟨hpast', k', hk', hsum⟩ := pastGet_step hc hst hdone hpast hk
    refine ⟨ht.step hst, step_done hst hdone, hpast', k', hk', ?_⟩
    rw [List.countP_append, List.countP_singleton]
    omega
  obtain ⟨ht, hdone, hpast, hcount⟩ := hinv
  exact ⟨hcount, pastGet_move ht hc hpast⟩

/-- Where `get_proc` leaves a CPU that gets no process. -/
theorem step_gotNull {s s' : State π} {c : ℕ} (hst : Step cfg Q s (.got c none) s') :
    c < cfg.numCpus ∧ (s'.cpu c).proc = none ∧
      (s'.cpu c).pc = if (s.cpu c).pc = .getFirst then .slot else .recheck := by
  cases hst with
  | cpu hc hw hget hm =>
    cases cpuRoutine_move hget hm with
    | got hgets hk hget =>
      refine ⟨hc, ?_, ?_⟩
      · simp
      · simp
  | loader hw hm => cases ldRoutine_move hm

/-- With `done` set, a CPU that gets `NULL` leaves at once exactly if its iteration
began with a process. -/
theorem leaves_iff {s s' : State π} {c : ℕ} (hs : (system cfg Q).Reachable s)
    (hst : Step cfg Q s (.got c none) s') (hdone : s.done = true) :
    Leaves cfg Q c s' ↔ (s.cpu c).pc ≠ .getFirst := by
  obtain ⟨hc, hproc, hpc⟩ := step_gotNull hst
  constructor
  · intro hleaves hfirst
    obtain ⟨⟨k, hk, -⟩, -⟩ := hleaves [] s' .nil
    rw [hpc, if_pos hfirst] at hk
    cases hk
  · intro hfirst
    rw [if_neg hfirst] at hpc
    exact leaves_of_recheck ((threads_of_reachable hs).step hst) hc (step_done hst hdone) hpc hproc

/-! ## The end of the loops -/

/-- The ready queue once `get_proc` only returns `NULL`. -/
def ReadyQueue.dry (Q : ReadyQueue π) : ReadyQueue π :=
  { Q with
    getProc := fun q r q' => r = none ∧ Q.content q' = Q.content q
    content_get := fun h => nomatch h.1
    content_null := And.right }

theorem label_of_gets {s s' : State π} {c : ℕ} {r : Option ℕ} {q : π} {lab : Label ι}
    (hgets : (s.cpu c).pc.gets = true) (h : cpuRoutine cfg Q s c r q = some (lab, s')) :
    lab = .got c r := by
  unfold cpuRoutine at h
  cases hpc : (s.cpu c).pc <;> rw [hpc] at hgets <;> cases hgets <;> simp only [hpc] at h <;>
    cases h <;> rfl

/-- A run in which `get_proc` only returns `NULL` is one of the dry queue. -/
theorem run_dry {s t : State π} {tr : List (Label ι)} (hr : (system cfg Q).Run s tr t)
    (hnull : ∀ c p, Label.got c (some p) ∉ tr) : (system cfg Q.dry).Run s tr t := by
  induction hr with
  | nil => exact .nil
  | @snoc tr t u lab hr hst ih =>
    refine (ih fun c p hmem => hnull c p (List.mem_append_left _ hmem)).snoc ?_
    have hlab : ∀ c p, lab ≠ .got c (some p) := by
      rintro c p rfl
      exact hnull c p (List.mem_append_right _ (List.mem_singleton_self _))
    cases hst with
    | @cpu _ c r q lab hc hw hget hm =>
      refine .cpu hc hw (fun hgets => ?_) hm
      obtain rfl := label_of_gets hgets hm
      cases r with
      | none => exact ⟨rfl, Q.content_null (hget hgets)⟩
      | some p => exact absurd rfl (hlab c p)
    | cpuCall hc hcall ht => exact .cpuCall hc hcall ht
    | loader hw hm => exact .loader hw hm
    | loaderCall hcall ht => exact .loaderCall hcall ht
    | timer ha ht => exact .timer ha ht

/-- The step is a spurious wake-up. -/
def Label.spurious : Label ι → Bool
  | .timer a => a.spurious
  | _ => false

theorem Label.not_spurious {lab : Label ι} (h : lab.isStatement = true) :
    ¬ lab.spurious = true := by
  cases lab with
  | timer a =>
    cases a with
    | wakeTimer | wakeDevice d => exact absurd h Bool.false_ne_true
    | _ => exact Bool.false_ne_true
  | _ => exact Bool.false_ne_true

/-- From `s` on the system comes to its end: the statements that are left are bounded,
but for those a spurious wake-up costs, and where no statement is left every CPU has
stopped and the timer has left its loop. -/
structure Ends (cfg : Config ι) (Q : ReadyQueue π) (s : State π) : Prop where
  bounded : ∃ m, ∀ tr t, (system cfg Q).Run s tr t →
    tr.countP Label.isStatement ≤ m + 2 * tr.countP Label.spurious
  ended : ∀ tr t, (system cfg Q).Run s tr t →
    (∀ lab t', lab.isStatement = true → ¬ Step cfg Q t lab t') →
    (∀ c < cfg.numCpus, (t.cpu c).pc = .stopped) ∧ t.timer.pc = .exited

/-- The CPU is in its loop and its iteration has begun, or will begin, without a
process. -/
def Cpu.idle (u : Cpu) : Prop :=
  u.pc = .getFirst ∨ u.proc = none ∧ (u.pc = .top ∨ u.pc = .slot)

/-- What the loop needs of the CPUs and the programs. -/
structure LoopInv (cfg : Config ι) (s : State π) : Prop where
  exec : ∀ c < cfg.numCpus, (s.cpu c).pc = .exec → (s.cpu c).proc ≠ none
  text : ∀ p, s.pc p ≤ cfg.size p

theorem run_pc_le (text : List ι) {pc : ℕ} (h : pc ≤ text.length) :
    pc ≤ (run text pc).2 ∧ (run text pc).2 ≤ text.length := by
  unfold run
  split
  · exact ⟨le_rfl, h⟩
  · next hlt => exact ⟨Nat.le_succ pc, Nat.lt_of_not_le hlt⟩

theorem CpuMove.pc_le {s s' : State π} {c : ℕ} {lab : Label ι} (hm : CpuMove cfg Q s c lab s')
    (h : ∀ p, s.pc p ≤ cfg.size p) (p : ℕ) : s.pc p ≤ s'.pc p ∧ s'.pc p ≤ cfg.size p := by
  cases hm with
  | @exec q hpc hproc =>
    show s.pc p ≤ Function.update s.pc q _ p ∧ Function.update s.pc q _ p ≤ cfg.size p
    rw [Function.update_apply]
    split
    · next hpq =>
      subst hpq
      exact run_pc_le (cfg.text p) (h p)
    · exact ⟨le_rfl, h p⟩
  | _ => exact ⟨le_rfl, h p⟩

theorem step_pc_le {s s' : State π} {lab : Label ι} (hst : Step cfg Q s lab s')
    (h : ∀ p, s.pc p ≤ cfg.size p) (p : ℕ) : s.pc p ≤ s'.pc p ∧ s'.pc p ≤ cfg.size p := by
  cases hst with
  | cpu hc hw hget hm => exact (cpuRoutine_move hget hm).pc_le h p
  | loader hw hm => cases ldRoutine_move hm <;> exact ⟨le_rfl, h p⟩
  | cpuCall | loaderCall | timer => exact ⟨le_rfl, h p⟩

theorem CpuMove.exec_proc {s s' : State π} {c : ℕ} {lab : Label ι}
    (hm : CpuMove cfg Q s c lab s') (hpc : (s'.cpu c).pc = .exec) : (s'.cpu c).proc ≠ none := by
  have hself : ∀ u : Cpu, (u.pc = .exec → u.proc ≠ none) →
      (Function.update s.cpu c u c).pc = .exec → (Function.update s.cpu c u c).proc ≠ none := by
    intro u hu
    rwa [Function.update_self]
  cases hm with
  | dispatch => exact hself _ (fun _ => nofun) hpc
  | got => exact hself _ (fun h => absurd h (afterGet_ne ⟨nofun, nofun⟩)) hpc
  | _ => exact hself _ nofun hpc

theorem LoopInv.step {s s' : State π} {lab : Label ι} (h : LoopInv cfg s)
    (hst : Step cfg Q s lab s') : LoopInv cfg s' := by
  refine ⟨fun c hc hpc => ?_, fun p => (step_pc_le hst h.text p).2⟩
  rcases step_cpu hc hst with ⟨-, hcpu⟩ | ⟨-, hmove | ⟨a, pc, hcall, hcpu⟩⟩
  · rw [hcpu] at hpc ⊢
    exact h.exec c hc hpc
  · exact hmove.exec_proc hpc
  · rw [hcpu] at hpc
    rcases CpuPc.call_eq hcall with ⟨-, -, rfl⟩ | ⟨-, -, rfl⟩ <;> cases hpc

theorem loopInv_of_reachable {s : State π} (hs : (system cfg Q).Reachable s) : LoopInv cfg s := by
  refine hs.invariant ?_ fun _ _ _ h hst => h.step hst
  rintro s rfl
  exact ⟨nofun, fun p => Nat.zero_le _⟩

/-! ## The measure -/

/-- How far a CPU is from its next call of the timer, or from the end. -/
def CpuPc.toGo : CpuPc → ℕ
  | .top | .getFirst => 10
  | .getAfterFree | .getAfterPut => 9
  | .recheck => 8
  | .leave => 7
  | .exec => 2
  | .slot => 1
  | .stopped => 0

/-- The calls of `next_slot` that a CPU has still to make for the process it holds. -/
def Cpu.calls (cfg : Config ι) (pc : ℕ → ℕ) (u : Cpu) : ℕ :=
  match u.proc, u.pc with
  | some p, .top => cfg.size p - pc p
  | some p, .recheck | some p, .exec => cfg.size p - pc p - 1 + 1
  | some p, .slot => cfg.size p - pc p + 1
  | _, _ => 0

/-- How far a CPU is from the end of its loop: each call of `next_slot` pays for a slot
of the timer. -/
def Cpu.toGo (cfg : Config ι) (pc : ℕ → ℕ) (u : Cpu) : ℕ :=
  (Timer.slotLength cfg.devices + 20) * u.calls cfg pc + u.pc.toGo

/-- How far the loader is from its end, once it has set `done`. -/
def LoaderPc.toGo : LoaderPc → ℕ
  | .leave => 7
  | _ => 0

/-- The measure: it falls with every statement. -/
def State.toGo (cfg : Config ι) (s : State π) : ℕ :=
  s.timer.toGo cfg.devices + ∑ c ∈ Finset.range cfg.numCpus, (s.cpu c).toGo cfg s.pc +
    s.loader.pc.toGo

/-- `done` is set and no CPU is idle. -/
structure WindsDown (cfg : Config ι) (s : State π) : Prop where
  threads : Threads cfg s
  loop : LoopInv cfg s
  done : s.done = true
  busy : ∀ c < cfg.numCpus, ¬ (s.cpu c).idle

theorem calls_anti {pc pc' : ℕ → ℕ} (hle : ∀ p, pc p ≤ pc' p) (u : Cpu) :
    u.calls cfg pc' ≤ u.calls cfg pc := by
  obtain ⟨upc, proc, k⟩ := u
  cases proc with
  | none => exact Nat.zero_le _
  | some p =>
    have hp := hle p
    cases upc <;> simp only [Cpu.calls] <;> omega

/-- A statement of a CPU that is not idle brings it closer to its next call of the
timer, and asks for no further call. -/
theorem CpuMove.closer {s s' : State π} {c : ℕ} {lab : Label ι}
    (hm : CpuMove cfg Q.dry s c lab s') (hw : WindsDown cfg s) (hc : c < cfg.numCpus) :
    (s'.cpu c).calls cfg s'.pc ≤ (s.cpu c).calls cfg s.pc ∧
      (s'.cpu c).pc.toGo < (s.cpu c).pc.toGo ∧ ¬ (s'.cpu c).idle := by
  have hself : ∀ (u : Cpu) (pc : ℕ → ℕ), u.calls cfg pc ≤ (s.cpu c).calls cfg s.pc →
      u.pc.toGo < (s.cpu c).pc.toGo → ¬ u.idle →
      (Function.update s.cpu c u c).calls cfg pc ≤ (s.cpu c).calls cfg s.pc ∧
        (Function.update s.cpu c u c).pc.toGo < (s.cpu c).pc.toGo ∧
        ¬ (Function.update s.cpu c u c).idle := by
    intro u pc hcalls hgo hidle
    rw [Function.update_self]
    exact ⟨hcalls, hgo, hidle⟩
  have hbusy := hw.busy c hc
  cases hm with
  | noProc hpc hproc => exact absurd (.inr ⟨hproc, .inl hpc⟩) hbusy
  | finished hpc hproc hfin =>
    refine hself _ _ (Nat.zero_le _) (by simp [hpc, CpuPc.toGo]) ?_
    simp [Cpu.idle]
  | expired hpc hproc =>
    refine hself _ _ (Nat.zero_le _) (by simp [hpc, CpuPc.toGo]) ?_
    simp [Cpu.idle]
  | @running p hpc hproc hfin =>
    refine hself _ _ ?_ (by simp [hpc, CpuPc.toGo]) (by simp [Cpu.idle])
    have hlt := Nat.lt_of_le_of_ne (hw.loop.text p) hfin
    simp only [Cpu.calls, hproc, hpc, setCpu_pc]
    omega
  | @got r q k hgets hk hget =>
    obtain ⟨rfl, -⟩ : r = none ∧ _ := hget
    have hfirst : (s.cpu c).pc ≠ .getFirst := fun hpc => hbusy (.inl hpc)
    rw [if_neg fun h => hfirst h.1]
    refine hself _ _ (Nat.zero_le _) ?_ (by simp [Cpu.idle])
    cases hpc : (s.cpu c).pc with
    | getFirst => exact absurd hpc hfirst
    | getAfterFree | getAfterPut => simp [CpuPc.toGo]
    | _ => rw [hpc] at hgets; cases hgets
  | exit hpc hproc =>
    refine hself _ _ (Nat.zero_le _) (by simp [hpc, CpuPc.toGo]) (by simp [Cpu.idle])
  | idle hpc hproc hdone => exact absurd (hw.done.symm.trans hdone) nofun
  | dispatch hpc hproc =>
    refine hself _ _ ?_ (by simp [hpc, CpuPc.toGo]) (by simp [Cpu.idle])
    simp only [Cpu.calls, hproc, hpc, setCpu_pc, le_refl]
  | @exec p hpc hproc =>
    refine hself _ _ ?_ (by simp [hpc, CpuPc.toGo]) (by simp [Cpu.idle])
    simp only [Cpu.calls, hproc, hpc, Function.update_self]
    unfold run
    split
    · next hend =>
      have hsize : cfg.size p ≤ s.pc p := hend
      omega
    · exact le_rfl

theorem Cpu.proc_of_slot {u : Cpu} (hbusy : ¬ u.idle) (hpc : u.pc = .slot) :
    ∃ p, u.proc = some p :=
  Option.ne_none_iff_exists'.mp fun hproc => hbusy (.inr ⟨hproc, .inr hpc⟩)

/-- No CPU becomes idle. -/
theorem WindsDown.busy_step {s s' : State π} {lab : Label ι} (hw : WindsDown cfg s)
    (hst : Step cfg Q.dry s lab s') {c : ℕ} (hc : c < cfg.numCpus) : ¬ (s'.cpu c).idle := by
  have hbusy := hw.busy c hc
  rcases step_cpu hc hst with ⟨-, hcpu⟩ | ⟨-, hmove | ⟨a, pc, hcall, hcpu⟩⟩
  · rw [hcpu]
    exact hbusy
  · exact (hmove.closer hw hc).2.2
  · rw [hcpu]
    rcases CpuPc.call_eq hcall with ⟨-, hpc, rfl⟩ | ⟨-, hpc, rfl⟩
    · obtain ⟨p, hp⟩ := Cpu.proc_of_slot hbusy hpc
      simp [Cpu.idle, hp]
    · simp [Cpu.idle]

theorem CpuMove.toGo_lt {s s' : State π} {c : ℕ} {lab : Label ι}
    (hm : CpuMove cfg Q.dry s c lab s') (hw : WindsDown cfg s) (hc : c < cfg.numCpus) :
    s'.toGo cfg < s.toGo cfg := by
  obtain ⟨htimer, hloader, -⟩ := hm.frame
  obtain ⟨hcalls, hgo, -⟩ := hm.closer hw hc
  have hself : (s'.cpu c).toGo cfg s'.pc + 1 ≤ (s.cpu c).toGo cfg s.pc :=
    Nat.add_lt_add_of_le_of_lt (Nat.mul_le_mul_left _ hcalls) hgo
  have hother : ∀ d, d ≠ c → (s'.cpu d).toGo cfg s'.pc ≤ (s.cpu d).toGo cfg s.pc := by
    intro d hd
    rw [cpuMove_other hm hd]
    exact Nat.add_le_add_right
      (Nat.mul_le_mul_left _ (calls_anti (fun p => (hm.pc_le hw.loop.text p).1) _)) _
  have hsum := Lts.sum_add_le hc hother hself
  unfold State.toGo
  rw [htimer, hloader]
  omega

/-- A call of `next_slot` is paid for by the CPU that makes it, and so is the call of
`detach_event`. -/
theorem WindsDown.cpuCall {s : State π} {t : Timer.State} {a : Timer.Act} {c : ℕ} {pc : CpuPc}
    (hw : WindsDown cfg s) (hc : c < cfg.numCpus)
    (hcall : (s.cpu c).pc.call (cfg.device c) = some (a, pc))
    (hst : Timer.step cfg.devices s.timer a = some t) :
    State.toGo cfg { s.setCpu c { s.cpu c with pc := pc } with timer := t } < s.toGo cfg := by
  have htimer := Timer.step_toGo hw.threads.timer hst
  have hself : (Cpu.toGo cfg s.pc { s.cpu c with pc := pc }) + (a.gain cfg.devices + 1) ≤
      (s.cpu c).toGo cfg s.pc := by
    rcases CpuPc.call_eq hcall with ⟨rfl, hpc, rfl⟩ | ⟨rfl, hpc, rfl⟩
    · obtain ⟨p, hp⟩ := Cpu.proc_of_slot (hw.busy c hc) hpc
      simp only [Cpu.toGo, Cpu.calls, hp, hpc, CpuPc.toGo, Timer.Act.gain, Nat.mul_succ]
      omega
    · have hcalls : Cpu.calls cfg s.pc { s.cpu c with pc := .stopped } = 0 := by
        unfold Cpu.calls
        cases (s.cpu c).proc <;> rfl
      unfold Cpu.toGo
      rw [hcalls, hpc]
      simp only [CpuPc.toGo, Timer.Act.gain]
      omega
  have hsum : ∑ d ∈ Finset.range cfg.numCpus,
      (Function.update s.cpu c { s.cpu c with pc := pc } d).toGo cfg s.pc +
        (a.gain cfg.devices + 1) ≤ ∑ d ∈ Finset.range cfg.numCpus, (s.cpu d).toGo cfg s.pc :=
    Lts.sum_add_le hc (fun d hd => by rw [Function.update_of_ne hd])
      (by rw [Function.update_self]; exact hself)
  unfold State.toGo
  show t.toGo cfg.devices + ∑ d ∈ Finset.range cfg.numCpus,
    (Function.update s.cpu c { s.cpu c with pc := pc } d).toGo cfg s.pc + s.loader.pc.toGo < _
  omega

/-- Once `done` is set, the loader has only its call of `detach_event` to make. -/
theorem WindsDown.loaderCall {s : State π} {t : Timer.State} {a : Timer.Act} {pc : LoaderPc}
    (hw : WindsDown cfg s) (hcall : s.loader.pc.call Config.loaderDevice = some (a, pc))
    (hst : Timer.step cfg.devices s.timer a = some t) :
    State.toGo cfg { s with loader := ⟨pc, s.loader.i⟩, timer := t } < s.toGo cfg := by
  have htimer := Timer.step_toGo hw.threads.timer hst
  have hpc := hw.threads.counter.done_iff.mp hw.done
  rcases LoaderPc.call_eq hcall with ⟨rfl, hslot⟩ | ⟨rfl, hleave, rfl⟩
  · rcases hslot with ⟨h, -⟩ | ⟨h, -⟩ <;> rcases hpc with h' | h' <;> cases h.symm.trans h'
  · unfold State.toGo
    rw [hleave]
    simp only [LoaderPc.toGo, Timer.Act.gain] at htimer ⊢
    omega

/-- Every statement lowers the measure, and a spurious wake-up raises it by 2. -/
theorem WindsDown.step {s s' : State π} {lab : Label ι} (hw : WindsDown cfg s)
    (hst : Step cfg Q.dry s lab s') :
    WindsDown cfg s' ∧ s'.toGo cfg + (if lab.isStatement then 1 else 0) ≤
      s.toGo cfg + if lab.spurious then 2 else 0 := by
  refine ⟨⟨hw.threads.step hst, hw.loop.step hst, step_done hst hw.done,
    fun c hc => hw.busy_step hst hc⟩, ?_⟩
  cases hst with
  | cpu hc hworking hget hm =>
    have hmove := cpuRoutine_move hget hm
    have hspurious := Label.not_spurious hmove.isStatement
    rw [if_pos hmove.isStatement, if_neg hspurious]
    exact hmove.toGo_lt hw hc
  | cpuCall hc hcall ht =>
    have hlt := hw.cpuCall hc hcall ht
    rcases CpuPc.call_eq hcall with ⟨rfl, -, -⟩ | ⟨rfl, -, -⟩ <;> exact hlt
  | loader hworking hm =>
    have hpc := hw.threads.counter.done_iff.mp hw.done
    cases ldRoutine_move hm with
    | load h | allLoaded h | early h | onTime h | addProc h | setDone h =>
      rcases hpc with h' | h' <;> cases h.symm.trans h'
  | loaderCall hcall ht =>
    have hlt := hw.loaderCall hcall ht
    rcases LoaderPc.call_eq hcall with ⟨rfl, -⟩ | ⟨rfl, -⟩ <;> exact hlt
  | @timer a t ha ht =>
    have htimer := Timer.step_toGo hw.threads.timer ht
    have hstatement : (Label.timer a : Label ι).isStatement = a.isStatement := by
      show (a.isStatement || a.isCall) = a.isStatement
      rw [ha, Bool.or_false]
    rw [Timer.gain_of_not_call ha] at htimer
    rw [hstatement]
    show t.toGo cfg.devices + _ + _ + _ ≤ _ + (if a.spurious then 2 else 0)
    unfold State.toGo
    dsimp only
    omega

/-- Once no CPU is idle, `done` is set and `get_proc` returns `NULL` from then on, a run
makes only so many statements. -/
theorem statements_le {s t : State π} {tr : List (Label ι)} (hw : WindsDown cfg s)
    (hr : (system cfg Q.dry).Run s tr t) :
    WindsDown cfg t ∧ tr.countP Label.isStatement ≤
      s.toGo cfg + 2 * tr.countP Label.spurious := by
  have hcount := hr.count_le (μ := State.toGo cfg) hw fun _ _ _ hw hst => hw.step hst
  exact ⟨hcount.1, le_trans (Nat.le_add_left _ _) hcount.2⟩

/-! ## Where no statement is left -/

theorem device_cases {d : ℕ} (hd : d < cfg.devices) :
    d = Config.loaderDevice ∨ ∃ c < cfg.numCpus, d = cfg.device c := by
  have hle : d ≤ cfg.numCpus := Nat.le_of_lt_succ hd
  rcases Nat.eq_zero_or_pos d with hzero | hpos
  · exact .inl hzero
  · exact .inr ⟨cfg.numCpus - d, Nat.sub_lt (hpos.trans_le hle) hpos, (Nat.sub_sub_self hle).symm⟩

/-- A CPU whose device is at work can take a step. -/
theorem WindsDown.cpu_move {s : State π} {c : ℕ} (hw : WindsDown cfg s) (hc : c < cfg.numCpus)
    (hworking : (s.timer.device (cfg.device c)).pc = .working) :
    ∃ lab s', lab.isStatement = true ∧ Step cfg Q.dry s lab s' := by
  have hget : (s.cpu c).pc.gets = true → Q.dry.getProc s.queue none s.queue := fun _ => ⟨rfl, rfl⟩
  obtain ⟨lab, s', hst, -, hlab⟩ := hw.threads.cpu_move hc hworking (hw.loop.exec c hc) hget
  exact ⟨lab, s', hlab, hst⟩

theorem WindsDown.loader_move {s : State π} (hw : WindsDown cfg s)
    (hworking : (s.timer.device Config.loaderDevice).pc = .working) :
    ∃ lab s', lab.isStatement = true ∧ Step cfg Q.dry s lab s' := by
  have hdevice := hw.threads.loader
  rw [LoaderDevice, hworking] at hdevice
  have hpc := (hw.threads.counter.done_iff.mp hw.done).resolve_right hdevice
  have hcall : s.loader.pc.call Config.loaderDevice =
      some (.detachEvent Config.loaderDevice, .stopped) := by
    rw [hpc]
    rfl
  obtain ⟨t, ht⟩ := call_step (@loaderDevice_lt _ cfg) hworking (.inr rfl)
  exact ⟨_, _, rfl, .loaderCall hcall ht⟩

/-- Where no statement is left and no device is at work, the timer has left its loop and
every device has ended. -/
theorem Threads.timer_ended {s : State π} (ht : Threads cfg s)
    (hworking : ∀ d < cfg.devices, (s.timer.device d).pc ≠ .working)
    (hstuck : ∀ lab s', lab.isStatement = true → ¬ Step cfg Q s lab s') :
    s.timer.pc = .exited ∧ ∀ d < cfg.devices, (s.timer.device d).pc = .ended := by
  have hnone : ∀ a : Timer.Act, a.isStatement = true → a.isCall = false →
      Timer.step cfg.devices s.timer a = none := by
    intro a ha hcall
    rw [Option.eq_none_iff_forall_ne_some]
    intro t hstep
    refine hstuck (.timer a) _ ?_ (.timer hcall hstep)
    show (a.isStatement || a.isCall) = true
    rw [ha, hcall]
    rfl
  refine Timer.ended_of_stuck ht.timer (hnone .timer rfl rfl) fun d hd => ⟨?_, hworking d hd⟩
  simpa [Timer.step, hd, Timer.deviceRoutine] using hnone (.device d) rfl rfl

/-- Where no statement is left, every CPU has stopped and the timer has left its loop. -/
theorem WindsDown.ended_of_stuck {s : State π} (hw : WindsDown cfg s)
    (hstuck : ∀ lab s', lab.isStatement = true → ¬ Step cfg Q.dry s lab s') :
    (∀ c < cfg.numCpus, (s.cpu c).pc = .stopped) ∧ s.timer.pc = .exited := by
  have hidle : ∀ d < cfg.devices, (s.timer.device d).pc ≠ .working := by
    intro d hd hworking
    rcases device_cases hd with rfl | ⟨c, hc, rfl⟩
    · obtain ⟨lab, s', hlab, hst⟩ := hw.loader_move (Q := Q) hworking
      exact hstuck lab s' hlab hst
    · obtain ⟨lab, s', hlab, hst⟩ := hw.cpu_move (Q := Q) hc hworking
      exact hstuck lab s' hlab hst
  obtain ⟨hexited, hended⟩ := hw.threads.timer_ended hidle hstuck
  refine ⟨fun c hc => ?_, hexited⟩
  have hcpu := hw.threads.cpu c hc
  rw [CpuDevice, hended _ (device_lt cfg c)] at hcpu
  exact hcpu

/-- Without a process to get, an idle CPU stays idle. -/
theorem idle_step {s s' : State π} {lab : Label ι} {c : ℕ} (hc : c < cfg.numCpus)
    (hst : Step cfg Q.dry s lab s') (hidle : (s.cpu c).idle) : (s'.cpu c).idle := by
  have hpos : ∀ pc, (s.cpu c).pc = pc → pc = .getFirst ∨ pc = .top ∨ pc = .slot := by
    rintro pc rfl
    exact hidle.imp_right And.right
  have hnone : ∀ p, (s.cpu c).proc = some p → (s.cpu c).pc = .getFirst := by
    intro p hp
    refine hidle.resolve_right fun h => ?_
    cases h.1.symm.trans hp
  rcases step_cpu hc hst with ⟨-, hcpu⟩ | ⟨-, hmove | ⟨a, pc, hcall, hcpu⟩⟩
  · rw [hcpu]
    exact hidle
  · cases hmove with
    | noProc => exact .inl (by simp)
    | got hgets hk hget =>
      obtain ⟨rfl, -⟩ := hget
      have hfirst : (s.cpu c).pc = .getFirst := by
        rcases hpos _ rfl with hpc | hpc | hpc
        · exact hpc
        · rw [hpc] at hgets
          cases hgets
        · rw [hpc] at hgets
          cases hgets
      exact .inr (by simp [hfirst])
    | finished hpc hproc | expired hpc hproc | running hpc hproc =>
      cases hpc.symm.trans (hnone _ hproc)
    | exit hpc | idle hpc | dispatch hpc | exec hpc => exact absurd (hpos _ hpc) nofun
  · rw [hcpu]
    rcases CpuPc.call_eq hcall with ⟨-, hpc, rfl⟩ | ⟨-, hpc, rfl⟩
    · have hproc := (hidle.resolve_left (by rw [hpc]; nofun)).1
      exact .inr ⟨hproc, .inl rfl⟩
    · exact absurd (hpos _ hpc) nofun

/-- With an idle CPU the system never comes to its end. -/
theorem not_ends_of_idle {s : State π} {c : ℕ} (hc : c < cfg.numCpus) (hidle : (s.cpu c).idle) :
    ¬ Ends cfg Q.dry s := by
  rintro ⟨⟨m, hm⟩, hended⟩
  have hbound : ∀ tr t, (system cfg Q.dry).Run s tr t →
      tr.all Label.isStatement = true → tr.length ≤ m := by
    intro tr t hr hall
    have hstatement : ∀ lab ∈ tr, lab.isStatement = true := List.all_eq_true.mp hall
    have hspurious : ∀ lab ∈ tr, ¬ lab.spurious = true := fun lab hmem =>
      Label.not_spurious (hstatement lab hmem)
    have hle := hm tr t hr
    rwa [List.countP_eq_length.mpr hstatement, List.countP_eq_zero.mpr hspurious] at hle
  obtain ⟨tr, t, hr, hstuck⟩ := Lts.exists_stuck hbound
  have hstop := (hended tr t hr hstuck).1 c hc
  have hstays : (t.cpu c).idle := hr.invariant hidle fun _ _ _ h hst => idle_step hc hst h
  rcases hstays with hpc | ⟨-, hpc | hpc⟩ <;> cases hpc.symm.trans hstop

/-- With `done` set and `get_proc` returning `NULL` from then on, the system comes to
its end exactly if no CPU is idle. -/
theorem ends_iff {s : State π} (hs : (system cfg Q).Reachable s) (hdone : s.done = true) :
    Ends cfg Q.dry s ↔ ∀ c < cfg.numCpus, ¬ (s.cpu c).idle := by
  constructor
  · exact fun hends c hc hidle => not_ends_of_idle hc hidle hends
  · intro hbusy
    have hw : WindsDown cfg s :=
      ⟨threads_of_reachable hs, loopInv_of_reachable hs, hdone, hbusy⟩
    exact ⟨⟨s.toGo cfg, fun tr t hr => (statements_le hw hr).2⟩,
      fun tr t hr hstuck => (statements_le hw hr).1.ended_of_stuck hstuck⟩

/-! ## A CPU that never stops -/

/-- With `done` set, a CPU that gets `NULL` leaves at once exactly if its iteration
began with a process; and if `get_proc` returns `NULL` from then on, the loops of all
CPUs and of the timer end exactly if no CPU is idle. -/
theorem idle_cpu_iff {s : State π} (hs : (system cfg Q).Reachable s) (hdone : s.done = true) :
    (∀ c s', Step cfg Q s (.got c none) s' → (Leaves cfg Q c s' ↔ (s.cpu c).pc ≠ .getFirst)) ∧
    (Ends cfg Q.dry s ↔ ∀ c < cfg.numCpus, ¬ (s.cpu c).idle) :=
  ⟨fun _ _ hst => leaves_iff hs hst hdone, ends_iff hs hdone⟩

/-- Two CPUs, slices of one slot, and one program of one instruction. -/
def twoCpus : Config ℕ where
  timeSlot := 1
  numCpus := 2
  programs := [⟨[10], 0⟩]

/-- CPU 0 runs the program, CPU 1 finds none; in the second slot the loader sets
`done`, and CPU 1 comes back to its first call of `get_proc`. -/
def idleSlot : List Thread :=
  List.replicate 4 Thread.loader ++ List.replicate 5 (Thread.cpu 0) ++
  List.replicate 3 (Thread.cpu 1) ++ List.replicate 4 (Thread.timer (.device 0)) ++
  List.replicate 4 (Thread.timer (.device 1)) ++ List.replicate 4 (Thread.timer (.device 2)) ++
  List.replicate 28 (Thread.timer .timer) ++ List.replicate 3 (Thread.timer (.device 0)) ++
  List.replicate 3 (Thread.timer (.device 1)) ++ List.replicate 2 Thread.loader ++ [Thread.cpu 1]

/-- CPU 1 gets `NULL` with `done` set and goes on: the system never comes to its end. -/
theorem idle_cpu_loops :
    ∃ tr s s', moves twoCpus idleSlot (start fifo) = some (tr, s) ∧ s.done = true ∧
      Step twoCpus fifo s (.got 1 none) s' ∧ ¬ Leaves twoCpus fifo 1 s' ∧
      ¬ Ends twoCpus fifo.dry s := by
  have hmoves : (moves twoCpus idleSlot (start fifo)).any (fun x => x.2.done &&
      decide ((x.2.cpu 1).pc = .getFirst) &&
      (move twoCpus x.2 (.cpu 1)).any fun y => y.1 = .got 1 none) = true := by
    decide +kernel
  obtain ⟨⟨tr, s⟩, htr, h⟩ := (Option.any_eq_true _ _).mp hmoves
  simp only [Bool.and_eq_true, decide_eq_true_eq] at h
  obtain ⟨⟨hdone, hfirst⟩, hget⟩ := h
  obtain ⟨⟨lab, s'⟩, hst, hlab⟩ := (Option.any_eq_true _ _).mp hget
  obtain rfl : lab = .got 1 none := of_decide_eq_true hlab
  have hs : (system twoCpus fifo).Reachable s := ⟨_, tr, rfl, run_of_moves htr⟩
  have hstep := step_of_move hst
  refine ⟨tr, s, s', htr, hdone, hstep, fun hleaves => ?_, ?_⟩
  · exact (leaves_iff hs hstep hdone).mp hleaves hfirst
  · exact not_ends_of_idle (show 1 < 2 from Nat.one_lt_two) (.inl hfirst)

/-- Up to the store of `done` in the second slot, with one CPU: it holds its process, so
both loops end. -/
def busySlot : List Thread :=
  firstSlice ++ List.replicate 3 (Thread.timer (.device 0)) ++ List.replicate 2 Thread.loader

theorem idle_cpu_iff_busySlot :
    ∃ tr s, moves oneInstruction busySlot (start fifo) = some (tr, s) ∧
      Ends oneInstruction fifo.dry s := by
  have hmoves : (moves oneInstruction busySlot (start fifo)).any
      (fun x => x.2.done && decide ((x.2.cpu 0).proc = some 0 ∧ (x.2.cpu 0).pc = .top)) = true := by
    decide +kernel
  obtain ⟨⟨tr, s⟩, htr, h⟩ := (Option.any_eq_true _ _).mp hmoves
  simp only [Bool.and_eq_true, decide_eq_true_eq] at h
  obtain ⟨hdone, hproc, hpc⟩ := h
  have hs : (system oneInstruction fifo).Reachable s := ⟨_, tr, rfl, run_of_moves htr⟩
  refine ⟨tr, s, htr, (idle_cpu_iff hs hdone).2.mpr fun c hc => ?_⟩
  obtain rfl : c = 0 := Nat.lt_one_iff.mp hc
  simp [Cpu.idle, hproc, hpc]

end Os

end SimpleOs
