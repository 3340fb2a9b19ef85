import SimpleOs.Drain

/-!
# How long the programs run

The CPUs share one ready queue, so none is idle while a process waits. This bounds the
time to the end of every program, by the argument for list scheduling: until the queue
runs dry every CPU executes an instruction in every slot, and from then on every
unfinished process does.

Results:
1. `runs_le_work`: a process is run at most once for each of its instructions, and an
   empty program once.
2. `runsOn_ge`, `runs_ge`: the slots up to the moment when the queue runs dry, and those
   behind it.
3. `finished_of_tick`: hence the slot in which a program has been executed to its end.
4. `finished_of_longEnough`: and every run that is long enough executes every program
   to its end, as long as `load`, `get_proc` and `run` return.
-/

namespace SimpleOs

namespace Os

open Custody (Loc)

variable {ι π : Type*} {cfg : Config ι} {Q : ReadyQueue π} {s s' : State π} {lab : Label ι}

/-! ## The work of a process -/

/-- The calls of `run` for process `p`: an empty program is dispatched once as well. -/
def Config.work (cfg : Config ι) (p : ℕ) : ℕ :=
  max 1 (cfg.size p)

/-- The process will be run before it is tested for its end again. -/
def State.toRun (Q : ReadyQueue π) (s : State π) (p : ℕ) : Prop :=
  s.loader.i ≤ p ∨ p ∈ Q.content s.queue ∨
    ∃ c, s.holds c p ∧ ((s.cpu c).pc = .recheck ∨ (s.cpu c).pc = .exec)

/-- A process that is to be run was so before, or has just been found unfinished. -/
theorem CpuMove.toRun {c p : ℕ} (hm : CpuMove cfg Q s c lab s') (h : s'.toRun Q p) :
    s.toRun Q p ∨ s.pc p ≠ cfg.size p := by
  have hself : ∀ u : Cpu, (Function.update s.cpu c u c).holds p ∧
      ((Function.update s.cpu c u c).pc = .recheck ∨ (Function.update s.cpu c u c).pc = .exec) →
      u.proc = some p ∧ (u.pc = .recheck ∨ u.pc = .exec) := by
    intro u hu
    rw [Function.update_self] at hu
    exact ⟨hu.1.1, hu.2⟩
  rcases h with hi | hmem | ⟨c', hheld, hpos⟩
  · rw [hm.frame.2.1] at hi
    exact .inl (.inl hi)
  · cases hm with
    | @expired q hpc hproc hfin =>
      rw [Q.content_put, Multiset.mem_cons] at hmem
      rcases hmem with rfl | hmem
      · exact .inr hfin
      · exact .inl (.inr (.inl hmem))
    | @got r q k hgets hk hget =>
      refine .inl (.inr (.inl ?_))
      cases r with
      | none => rwa [← Q.content_null hget]
      | some p' => rw [Q.content_get hget]; exact Multiset.mem_cons_of_mem hmem
    | _ => exact .inl (.inr (.inl hmem))
  · rcases eq_or_ne c' c with rfl | hcc
    · cases hm with
      | noProc | exit | idle => exact absurd (hself _ ⟨hheld, hpos⟩).1 nofun
      | finished | expired | exec => exact absurd (hself _ ⟨hheld, hpos⟩).2 nofun
      | running hpc hproc hfin =>
        cases (hself _ ⟨hheld, hpos⟩).1
        exact .inr hfin
      | @got r q k hgets hk hget =>
        obtain rfl : r = some p := (hself _ ⟨hheld, hpos⟩).1
        exact .inl (.inr (.inl (by rw [Q.content_get hget]; exact Multiset.mem_cons_self _ _)))
      | dispatch hpc hproc =>
        cases (hself _ ⟨hheld, hpos⟩).1
        exact .inl (.inr (.inr ⟨c', ⟨hproc, by rw [hpc]; nofun, by rw [hpc]; nofun⟩, .inl hpc⟩))
    · rw [State.holds, cpuMove_other hm hcc] at hheld
      rw [cpuMove_other hm hcc] at hpos
      exact .inl (.inr (.inr ⟨c', hheld, hpos⟩))

theorem step_toRun {p : ℕ} (hst : Step cfg Q s lab s') (h : s'.toRun Q p) :
    s.toRun Q p ∨ s.pc p ≠ cfg.size p := by
  cases hst with
  | cpu hc hw hget hm => exact (cpuRoutine_move hget hm).toRun h
  | @cpuCall c a pc t hc hcall hstep =>
    refine .inl (h.imp_right (Or.imp_right fun ⟨c', hheld, hpos⟩ => ?_))
    change (s.setCpu c _).holds c' p at hheld
    change ((s.setCpu c _).cpu c').pc = _ ∨ ((s.setCpu c _).cpu c').pc = _ at hpos
    rw [setCpu_holds] at hheld
    rw [setCpu_cpu] at hpos
    split at hpos
    · rcases CpuPc.call_eq hcall with ⟨-, -, rfl⟩ | ⟨-, -, rfl⟩ <;> exact absurd hpos nofun
    · next hne =>
      rw [if_neg hne] at hheld
      exact ⟨c', hheld, hpos⟩
  | loader hw hm =>
    cases ldRoutine_move hm with
    | addProc hpc =>
      rcases h with hi | hmem | hheld
      · exact .inl (.inl (Nat.le_of_succ_le hi))
      · rw [Q.content_add, Multiset.mem_cons] at hmem
        rcases hmem with rfl | hmem
        · exact .inl (.inl le_rfl)
        · exact .inl (.inr (.inl hmem))
      · exact .inl (.inr (.inr hheld))
    | _ => exact .inl h
  | loaderCall | timer => exact .inl h

/-- A process that is run was to be run, and is tested for its end next. -/
theorem run_toRun {c p : ℕ} {ins : Option ι} (hs : (system cfg Q).Reachable s)
    (hst : Step cfg Q s (.run c p ins) s') :
    c < cfg.numCpus ∧ p < cfg.programs.length ∧ s.toRun Q p ∧ ¬ s'.toRun Q p := by
  have ht := threads_of_reachable hs
  have hs' := hs.step hst
  obtain ⟨hc, hheld, hheld', -, -⟩ := step_run hst ht
  obtain ⟨s₀, tr, rfl, hr⟩ := hs'
  obtain ⟨-, l, -, hl⟩ := run_located hr
  have hloc := (hl.held c p).mp hheld'
  have hpc : (s.cpu c).pc = .exec ∧ (s'.cpu c).pc = .slot ∧ s'.loader = s.loader := by
    cases hst with
    | cpu hc hw hget hm =>
      cases cpuRoutine_move hget hm with
      | exec hpc => exact ⟨hpc, by simp [State.setCpu], rfl⟩
    | loader hw hm => cases ldRoutine_move hm
  have hborn : p < s'.loader.i := by
    by_contra hge
    rw [(hl.unborn p).mpr (not_lt.mp hge)] at hloc
    cases hloc
  refine ⟨hc, ?_, .inr (.inr ⟨c, hheld, .inr hpc.1⟩), ?_⟩
  · rw [hpc.2.2] at hborn
    exact hborn.trans_le ht.counter.le
  · rintro (hi | hmem | ⟨c', hheld₂, hpos⟩)
    · exact absurd hborn (not_lt.mpr hi)
    · rw [← Multiset.one_le_count_iff_mem, hl.queue p, hloc, if_neg (by simp)] at hmem
      exact absurd hmem (Nat.not_succ_le_zero 0)
    · obtain rfl : c = c' := Loc.held.inj (hloc.symm.trans ((hl.held c' p).mp hheld₂))
      simp [hpc.2.1] at hpos

/-- The calls of `run` for a process against its program. -/
structure WorkInv (cfg : Config ι) (Q : ReadyQueue π) (s : State π) (p runs : ℕ) : Prop where
  pc : s.pc p = min runs (cfg.size p)
  le : runs ≤ cfg.work p
  toRun : s.toRun Q p → runs < cfg.work p

theorem WorkInv.step {p runs : ℕ} (hs : (system cfg Q).Reachable s) (hst : Step cfg Q s lab s')
    (h : WorkInv cfg Q s p runs) : WorkInv cfg Q s' p (runs + if lab.runs p then 1 else 0) := by
  have hpc := step_pc hst ((loopInv_of_reachable hs).text p)
  cases hrun : lab.runs p with
  | true =>
    obtain ⟨c, ins, rfl⟩ : ∃ c ins, lab = .run c p ins := by
      cases lab with
      | run c q ins =>
        obtain rfl : q = p := of_decide_eq_true hrun
        exact ⟨c, ins, rfl⟩
      | _ => cases hrun
    obtain ⟨-, -, hbefore, hafter⟩ := run_toRun hs hst
    rw [hrun, if_pos rfl, h.pc] at hpc
    refine ⟨?_, h.toRun hbefore, fun h => absurd h hafter⟩
    rw [hpc, if_pos rfl]
    omega
  | false =>
    rw [hrun, if_neg Bool.false_ne_true] at hpc
    rw [if_neg Bool.false_ne_true, Nat.add_zero]
    refine ⟨hpc.trans h.pc, h.le, fun hto => ?_⟩
    rcases step_toRun hst hto with hbefore | hunfinished
    · exact h.toRun hbefore
    · have hlt : runs < cfg.size p := by
        rw [h.pc] at hunfinished
        by_contra hge
        exact hunfinished (min_eq_right (not_lt.mp hge))
      exact hlt.trans_le (le_max_right _ _)

/-- A process is run once for each of its instructions. -/
theorem runs_le_work {tr : List (Label ι)} (hr : (system cfg Q).Run (start Q) tr s) (p : ℕ) :
    WorkInv cfg Q s p (tr.countP (Label.runs p)) := by
  refine hr.trace_invariant
    (I := fun tr s => WorkInv cfg Q s p (tr.countP (Label.runs p))) ?_ ?_
  · exact ⟨(Nat.zero_min _).symm, Nat.zero_le _, fun _ => Nat.lt_of_lt_of_le Nat.one_pos
      (le_max_left _ _)⟩
  · intro tr s lab s' hr h hst
    rw [List.countP_append, List.countP_singleton]
    exact h.step ⟨_, tr, rfl, hr⟩ hst

/-- What the CPUs execute, the processes execute. -/
theorem sum_runsOn_le {t : State π} {tr : List (Label ι)} (hs : (system cfg Q).Reachable s)
    (hr : (system cfg Q).Run s tr t) :
    ∑ c ∈ Finset.range cfg.numCpus, tr.countP (Label.runsOn c) ≤
      ∑ p ∈ Finset.range cfg.programs.length, tr.countP (Label.runs p) := by
  refine hr.trace_invariant (I := fun tr _ =>
    ∑ c ∈ Finset.range cfg.numCpus, tr.countP (Label.runsOn c) ≤
      ∑ p ∈ Finset.range cfg.programs.length, tr.countP (Label.runs p)) ?_ ?_
  · simp
  · intro tr t lab u hr ih hst
    simp only [List.countP_append, List.countP_singleton, Finset.sum_add_distrib]
    refine Nat.add_le_add ih ?_
    cases lab with
    | run c p ins =>
      obtain ⟨hc, hp, -⟩ := run_toRun (hs.run hr) hst
      simp [Label.runsOn, Label.runs, Finset.sum_ite_eq, hc, hp]
    | _ => simp [Label.runsOn]

/-! ## The two phases -/

/-- The tick finds a CPU that has not stopped inside its call of `next_slot`. -/
theorem used_of_tick {c : ℕ} (ht : Threads cfg s) (hst : Step cfg Q s lab s')
    (htick : s.ticks lab = true) (hc : c < cfg.numCpus) (hstop : (s.cpu c).pc ≠ .stopped) :
    s.cpuUsed cfg c ∧ ¬ s'.cpuUsed cfg c ∧ s'.cpu = s.cpu ∧ s'.queue = s.queue := by
  have hd := device_lt cfg c
  rcases step_timer hst with ⟨hnone, -⟩ | ⟨a, rfl, hstep⟩
  · exact absurd ((not_ticks hnone).symm.trans htick) Bool.false_ne_true
  · obtain ⟨rfl, hpc⟩ := Timer.ticks_iff.mp htick
    have hin : (s.timer.device (cfg.device c)).pc.inDetach = false := by
      by_contra hin
      exact hstop ((ht.cpu c hc).ended (by simpa using hin))
    have hb := Timer.beforeTick_of_incTime ht.timer hpc hd hin
    have hahead := Timer.step_beforeTick ht.timer hstep hd hin nofun nofun
    have hnot : ¬ (s'.timer.toLocal (cfg.device c)).beforeTick := by
      rw [show s.timer.ticks .timer = true from htick, if_pos rfl, Timer.Local.ahead,
        Timer.Local.ahead, if_pos hb] at hahead
      intro hb'
      rw [if_pos hb'] at hahead
      cases hahead
    have htop := (cpuUsed_idle ht hc (.inr hb)).resolve_left fun hslot => by
      have hcpu := ht.cpu c hc
      rw [CpuDevice, DeviceOf, if_pos (Timer.inNextSlot_of_beforeTick ht.timer hd hb), hslot]
        at hcpu
      cases hcpu
    have hframe : s'.cpu = s.cpu ∧ s'.queue = s.queue := by
      cases hst with
      | cpu hc hw hget hm => cases (cpuRoutine_move hget hm).timerAct
      | loader hw hm => cases (ldRoutine_move hm).timerAct
      | cpuCall hc hcall => rcases CpuPc.call_eq hcall with ⟨h, -⟩ | ⟨h, -⟩ <;> cases h
      | loaderCall hcall => rcases LoaderPc.call_eq hcall with ⟨h, -⟩ | ⟨h, -⟩ <;> cases h
      | timer => exact ⟨rfl, rfl⟩
    refine ⟨.inr hb, ?_, hframe⟩
    rintro (hslot | hb')
    · rw [hframe.1, htop.1] at hslot
      cases hslot
    · exact hnot hb'

theorem not_runs_of_tick (htick : s.ticks lab = true) (c p : ℕ) :
    lab.runsOn c = false ∧ lab.runs p = false := by
  cases lab with
  | timer a => exact ⟨rfl, rfl⟩
  | _ => cases htick

/-- As long as the queue has not run dry, every CPU executes an instruction in every
slot. -/
theorem runsOn_ge {w : State π} {tr : List (Label ι)} {c k₁ k₂ : ℕ}
    (hnull : ∀ q q', Q.getProc q none q' → Q.content q = 0) (hs : (system cfg Q).Reachable s)
    (hsettled : s.settled cfg)
    (hr : (((system cfg Q).counted State.ticks).restrict fun x _ _ => ¬ Drained cfg Q x.1).Run
      (s, k₁) tr (w, k₂)) (hc : c < cfg.numCpus) : k₂ ≤ k₁ + tr.countP (Label.runsOn c) + 1 := by
  have hinv : (system cfg Q).Reachable w ∧ w.settled cfg ∧
      k₂ ≤ k₁ + tr.countP (Label.runsOn c) + 1 ∧
      (¬ Drained cfg Q w → w.cpuUsed cfg c → k₂ ≤ k₁ + tr.countP (Label.runsOn c)) := by
    refine hr.trace_invariant (I := fun tr x => (system cfg Q).Reachable x.1 ∧ x.1.settled cfg ∧
      x.2 ≤ k₁ + tr.countP (Label.runsOn c) + 1 ∧
      (¬ Drained cfg Q x.1 → x.1.cpuUsed cfg c → x.2 ≤ k₁ + tr.countP (Label.runsOn c)))
      ⟨hs, hsettled, Nat.le_succ_of_le le_rfl, fun _ _ => le_rfl⟩ ?_
    rintro tr ⟨x, k⟩ lab ⟨y, k'⟩ - ⟨hx, hsx, hle, hused⟩ ⟨⟨hst, hk⟩, hwet⟩
    dsimp only at hx hsx hle hused hst hk hwet ⊢
    have ht := threads_of_reachable hx
    have hpast : ¬ (x.cpu c).pastGet := fun hp => hwet (drainInv_of_reachable hnull hx hsx c hc hp)
    refine ⟨hx.step hst, (settled_step ht hst hsx).1, ?_⟩
    rw [List.countP_append, List.countP_singleton, hk]
    cases htick : x.ticks lab with
    | true =>
      obtain ⟨hbefore, hafter, -⟩ := used_of_tick ht hst htick hc fun h => hpast (.inr (.inr h))
      rw [(not_runs_of_tick htick c 0).1]
      exact ⟨Nat.succ_le_succ (hused hwet hbefore), fun _ h => absurd h hafter⟩
    | false =>
      refine ⟨hle.trans (by omega), fun hwet' hused' => ?_⟩
      by_cases hbefore : x.cpuUsed cfg c
      · exact (hused hwet hbefore).trans (by omega)
      · rcases newly_used ht hst hc hbefore hused' with ⟨p, ins, rfl, -⟩ | ⟨-, rfl | hp⟩
        · rw [if_pos (show (Label.run c p ins).runsOn c = true from decide_eq_true rfl)]
          exact hle
        · exact absurd (drained_of_null hst hnull) hwet'
        · exact absurd hp hpast
  exact hinv.2.2.1

/-- An unfinished process is in the queue or with a CPU. -/
theorem alive_of_unfinished {p : ℕ} (hnull : ∀ q q', Q.getProc q none q' → Q.content q = 0)
    (hs : (system cfg Q).Reachable s) (hi : p < s.loader.i) (hpc : s.pc p < cfg.size p) :
    p ∈ Q.content s.queue ∨ ∃ c < cfg.numCpus, s.holds c p ∧ (s.cpu c).pc ≠ .stopped := by
  have hcpus := (shutdownInv_of_reachable hnull hs).cpus
  obtain ⟨s₀, tr, rfl, hr⟩ := hs
  obtain ⟨hcpu, l, -, hl⟩ := run_located hr
  cases hloc : l p with
  | unborn => exact absurd hi (not_lt.mpr ((hl.unborn p).mp hloc))
  | gone => exact absurd (hl.gone p hloc) hpc.ne
  | pooled => exact .inl (by rw [← Multiset.one_le_count_iff_mem, hl.queue p, if_pos hloc])
  | held c =>
    have hheld := (hl.held c p).mpr hloc
    refine .inr ⟨c, ?_, hheld, fun hstop => ?_⟩
    · by_contra hge
      have hproc := hheld.1
      rw [hcpus c (not_lt.mp hge)] at hproc
      cases hproc
    · exact absurd (((hcpu c).ended (.inr hstop)).symm.trans hheld.1) nofun

/-- At the tick no CPU is between `put_proc` and `get_proc`. -/
theorem owed_of_tick (ht : Threads cfg s) (hst : Step cfg Q s lab s')
    (htick : s.ticks lab = true) : s.owed cfg = 0 := by
  refine Finset.sum_eq_zero fun c hc => if_neg fun hpc => ?_
  have hused := (used_of_tick ht hst htick (Finset.mem_range.mp hc) (by rw [hpc]; nofun)).1
  rcases cpuUsed_idle ht (Finset.mem_range.mp hc) hused with h | ⟨h, -⟩ <;> cases hpc.symm.trans h

/-- Once the queue has run dry, every unfinished process executes an instruction in
every slot. -/
theorem runs_ge {t : State π} {tr : List (Label ι)} {p k₁ k₂ : ℕ}
    (hnull : ∀ q q', Q.getProc q none q' → Q.content q = 0) (hs : (system cfg Q).Reachable s)
    (hsettled : s.settled cfg) (hdry : Drained cfg Q s)
    (hr : ((system cfg Q).counted State.ticks).Run (s, k₁) tr (t, k₂))
    (hp : p < cfg.programs.length) (hpc : t.pc p < cfg.size p) :
    k₂ ≤ k₁ + tr.countP (Label.runs p) + 1 := by
  have hinv : (system cfg Q).Reachable t ∧ t.settled cfg ∧ Drained cfg Q t ∧
      (t.pc p < cfg.size p → k₂ ≤ k₁ + tr.countP (Label.runs p) + 1 ∧
        ∀ c < cfg.numCpus, t.holds c p → t.cpuUsed cfg c → k₂ ≤ k₁ + tr.countP (Label.runs p)) := by
    refine hr.trace_invariant (I := fun tr x => (system cfg Q).Reachable x.1 ∧ x.1.settled cfg ∧
      Drained cfg Q x.1 ∧ (x.1.pc p < cfg.size p → x.2 ≤ k₁ + tr.countP (Label.runs p) + 1 ∧
        ∀ c < cfg.numCpus, x.1.holds c p → x.1.cpuUsed cfg c →
          x.2 ≤ k₁ + tr.countP (Label.runs p)))
      ⟨hs, hsettled, hdry, fun _ => ⟨Nat.le_succ_of_le le_rfl, fun _ _ _ _ => le_rfl⟩⟩ ?_
    rintro tr ⟨x, k⟩ lab ⟨y, k'⟩ - ⟨hx, hsx, hdx, hunf⟩ ⟨hst, hk⟩
    dsimp only at hx hsx hdx hunf hst hk ⊢
    have ht := threads_of_reachable hx
    refine ⟨hx.step hst, (settled_step ht hst hsx).1, drained_step ht hst hnull hsx hdx,
      fun hpcy => ?_⟩
    have hpcx := (step_pc_le hst (loopInv_of_reachable hx).text p).1.trans_lt hpcy
    obtain ⟨hle, hheldused⟩ := hunf hpcx
    rw [List.countP_append, List.countP_singleton, hk]
    cases htick : x.ticks lab with
    | true =>
      -- The queue is empty, so the process is with a CPU, which has used its slot.
      have hempty : Q.content x.queue = 0 := by
        rw [Drained, owed_of_tick ht hst htick] at hdx
        exact Multiset.card_eq_zero.mp (Nat.le_zero.mp hdx)
      rcases alive_of_unfinished hnull hx (by rw [hsx.1]; exact hp) hpcx with
        hmem | ⟨c, hc, hheld, hstop⟩
      · rw [hempty] at hmem
        exact absurd hmem (Multiset.notMem_zero p)
      · obtain ⟨hbefore, hafter, hcpu, -⟩ := used_of_tick ht hst htick hc hstop
        rw [(not_runs_of_tick htick c p).2]
        refine ⟨Nat.succ_le_succ (hheldused c hc hheld hbefore), fun c' hc' hheld' hused' => ?_⟩
        rw [State.holds, hcpu] at hheld'
        rw [holds_unique hx hheld' hheld] at hused'
        exact absurd hused' hafter
    | false =>
      refine ⟨hle.trans (by omega), fun c hc hheld hused => ?_⟩
      by_cases hbefore : x.cpuUsed cfg c
      · have hsame := (cpuUsed_step ht hst hc htick hbefore).2 p
        exact (hheldused c hc (hsame.mp hheld) hbefore).trans (by omega)
      · rcases newly_used ht hst hc hbefore hused with ⟨q, ins, rfl, hq⟩ | ⟨hnone, -⟩
        · obtain rfl : q = p := Option.some.inj (hq.1.symm.trans hheld.1)
          rw [if_pos (show (Label.run c q ins).runs q = true from decide_eq_true rfl)]
          exact hle
        · cases hnone.symm.trans hheld.1
  exact (hinv.2.2.2 hpc).1

/-! ## The end of a program -/

/-- The slot behind which program `p` has been executed to its end: the last program is
added, and the CPUs share the work of all programs. -/
def Config.deadline (cfg : Config ι) (p : ℕ) : ℕ :=
  cfg.earliest cfg.programs.length + cfg.size p + 1 +
    (∑ q ∈ Finset.range cfg.programs.length, cfg.work q) / cfg.numCpus

/-- All programs are added by their schedule. -/
theorem settled_by {u : State π} {tr : List (Label ι)} {k : ℕ}
    (hr : (((system cfg Q).counted State.ticks).restrict fun x _ _ => ¬ x.1.settled cfg).Run
      (start Q, 0) tr (u, k)) : k ≤ cfg.earliest cfg.programs.length := by
  generalize hx : ((u, k) : State π × ℕ) = x at hr
  cases hr with
  | nil => cases hx; exact Nat.zero_le _
  | @snoc tr y z lab hr hst =>
    subst hx
    obtain ⟨⟨-, hk⟩, hnot⟩ := hst
    have hlt := tick_lt_of_not_settled
      (threads_of_reachable ⟨_, tr, rfl, hr.of_restrict.uncount⟩) (loadInv_of_run hr.of_restrict)
      hnot
    rw [show k = _ from hk]
    split
    · exact hlt
    · exact hlt.le

/-- The work until the queue runs dry is shared by all CPUs. -/
theorem slots_until_dry {u w : State π} {tr₁ tr₂ : List (Label ι)} {k₁ k₂ : ℕ}
    (hnull : ∀ q q', Q.getProc q none q' → Q.content q = 0)
    (hr₁ : (system cfg Q).Run (start Q) tr₁ u) (hsettled : u.settled cfg)
    (hr₂ : (((system cfg Q).counted State.ticks).restrict fun x _ _ => ¬ Drained cfg Q x.1).Run
      (u, k₁) tr₂ (w, k₂)) :
    cfg.numCpus * k₂ ≤ cfg.numCpus * (k₁ + 1) +
      ∑ p ∈ Finset.range cfg.programs.length, cfg.work p := by
  have hu : (system cfg Q).Reachable u := ⟨_, tr₁, rfl, hr₁⟩
  have hwork : ∀ p, tr₂.countP (Label.runs p) ≤ cfg.work p := by
    intro p
    have hle := (runs_le_work (hr₁.append hr₂.of_restrict.uncount) p).le
    rw [List.countP_append] at hle
    exact (Nat.le_add_left _ _).trans hle
  calc cfg.numCpus * k₂
      = ∑ c ∈ Finset.range cfg.numCpus, k₂ := by
        rw [Finset.sum_const, Finset.card_range, smul_eq_mul]
    _ ≤ ∑ c ∈ Finset.range cfg.numCpus, (k₁ + 1 + tr₂.countP (Label.runsOn c)) := by
        refine Finset.sum_le_sum fun c hc => ?_
        rw [Nat.add_right_comm]
        exact runsOn_ge hnull hu hsettled hr₂ (Finset.mem_range.mp hc)
    _ = cfg.numCpus * (k₁ + 1) +
          ∑ c ∈ Finset.range cfg.numCpus, tr₂.countP (Label.runsOn c) := by
        rw [Finset.sum_add_distrib, Finset.sum_const, Finset.card_range, smul_eq_mul]
    _ ≤ _ := Nat.add_le_add_left ((sum_runsOn_le hu hr₂.of_restrict.uncount).trans
        (Finset.sum_le_sum fun p _ => hwork p)) _

/-- An unfinished program has not reached its deadline. -/
theorem le_deadline {t : State π} {tr : List (Label ι)} {p k : ℕ} (hcpus : 0 < cfg.numCpus)
    (hnull : ∀ q q', Q.getProc q none q' → Q.content q = 0)
    (hr : ((system cfg Q).counted State.ticks).Run (start Q, 0) tr (t, k))
    (hp : p < cfg.programs.length) (hne : t.pc p ≠ cfg.size p) : k ≤ cfg.deadline p := by
  have hpc : t.pc p < cfg.size p :=
    lt_of_le_of_ne ((loopInv_of_reachable ⟨_, tr, rfl, hr.uncount⟩).text p) hne
  obtain ⟨tr₁, tr', ⟨u, k₁⟩, rfl, hr₁, hr', hu⟩ := hr.until fun x => x.1.settled cfg
  have hk₁ := settled_by hr₁
  rcases hu with hsettled | ⟨heq, -⟩
  · obtain ⟨tr₂, tr₃, ⟨w, k₂⟩, rfl, hr₂, hr₃, hw⟩ := hr'.until fun x => Drained cfg Q x.1
    have hru : (system cfg Q).Run (start Q) tr₁ u := hr₁.of_restrict.uncount
    have hrw := hru.append hr₂.of_restrict.uncount
    -- A process that is unfinished at the end has not been run often.
    have hruns : tr₃.countP (Label.runs p) < cfg.size p := by
      have heq : t.pc p = min _ (cfg.size p) := (runs_le_work (hrw.append hr₃.uncount) p).pc
      rw [heq, min_lt_iff, List.countP_append] at hpc
      exact (Nat.le_add_left _ _).trans_lt (hpc.resolve_right (lt_irrefl _))
    have hk : k ≤ k₂ + cfg.size p := by
      rcases hw with hdry | ⟨heq, -⟩
      · have hws : w.settled cfg := hr₂.of_restrict.uncount.trace_invariant
          (I := fun _ x => (system cfg Q).Reachable x ∧ x.settled cfg)
          ⟨⟨_, tr₁, rfl, hru⟩, hsettled⟩
          (fun _ x lab y _ ⟨hx, hsx⟩ hst => ⟨hx.step hst,
            (settled_step (threads_of_reachable hx) hst hsx).1⟩) |>.2
        have hle := runs_ge hnull ⟨_, _, rfl, hrw⟩ hws hdry hr₃ hp hpc
        omega
      · cases heq
        exact Nat.le_add_right _ _
    have hshare := slots_until_dry hnull hru hsettled hr₂
    have hdiv : k₂ - (k₁ + 1) ≤
        (∑ q ∈ Finset.range cfg.programs.length, cfg.work q) / cfg.numCpus := by
      rw [Nat.le_div_iff_mul_le hcpus, Nat.mul_comm, Nat.mul_sub]
      exact Nat.sub_le_iff_le_add'.mpr hshare
    unfold Config.deadline
    omega
  · cases heq
    unfold Config.deadline
    exact hk₁.trans ((Nat.le_add_right _ _).trans ((Nat.le_add_right _ _).trans
      (Nat.le_add_right _ _)))

/-- The time to the end of every program, whatever the order in which the ready queue
serves the processes and the threads interleave: behind its deadline a program has been
executed to its end. -/
theorem finished_of_tick {t : State π} {tr : List (Label ι)} {p k : ℕ} (hcpus : 0 < cfg.numCpus)
    (hnull : ∀ q q', Q.getProc q none q' → Q.content q = 0)
    (hr : ((system cfg Q).counted State.ticks).Run (start Q, 0) tr (t, k))
    (hp : p < cfg.programs.length) (hk : cfg.deadline p < k) : t.pc p = cfg.size p := by
  by_contra hne
  exact absurd (le_deadline hcpus hnull hr hp hne) (not_le.mpr hk)

theorem fifo_null (q q' : List ℕ) (h : fifo.getProc q none q') : fifo.content q = 0 := by
  cases q with
  | nil => rfl
  | cons p q => exact absurd h.1 nofun

/-- Two CPUs, of which one stays idle, so that the clock goes on: the only program has
its end in slot 3. -/
theorem finished_of_tick_twoCpus : (drive twoCpus 250 (start fifo)).2.pc 0 = 1 := by
  obtain ⟨k, hk⟩ :=
    (run_of_drive twoCpus 250 (start fifo)).exists_counted State.ticks 0
  have htime : 3 < (drive twoCpus 250 (start fifo)).2.timer.time.toNat := by decide +kernel
  rw [time_eq hk, BitVec.toNat_ofNat] at htime
  exact finished_of_tick Nat.two_pos fifo_null hk Nat.one_pos (htime.trans_le (Nat.mod_le _ _))

/-- Where all threads have ended, every program has been executed to its end. -/
theorem Ended.finished {p : ℕ} (h : Ended cfg s) (hcpus : 0 < cfg.numCpus)
    (hnull : ∀ q q', Q.getProc q none q' → Q.content q = 0) (hs : (system cfg Q).Reachable s)
    (hp : p < cfg.programs.length) : s.pc p = cfg.size p := by
  have ht := threads_of_reachable hs
  have hi : s.loader.i = cfg.programs.length := ht.counter.finished (.inr (.inr h.loader))
  have hsettled : s.settled cfg := by
    refine ⟨hi, by rw [h.loader]; nofun, fun hb => ?_⟩
    have hnext := Timer.inNextSlot_of_beforeTick ht.timer loaderDevice_lt hb
    rw [h.device _ loaderDevice_lt] at hnext
    cases hnext
  have hdry := drainInv_of_reachable hnull hs hsettled 0 hcpus (.inr (.inr (h.cpu 0 hcpus)))
  have howed : s.owed cfg = 0 := Finset.sum_eq_zero fun c hc => if_neg fun hpc => by
    cases hpc.symm.trans (h.cpu c (Finset.mem_range.mp hc))
  have hempty : Q.content s.queue = 0 := by
    rw [Drained, howed] at hdry
    exact Multiset.card_eq_zero.mp (Nat.le_zero.mp hdry)
  by_contra hne
  have hlt := lt_of_le_of_ne ((loopInv_of_reachable hs).text p) hne
  rcases alive_of_unfinished hnull hs (by rw [hi]; exact hp) hlt with hmem | ⟨c, hc, -, hstop⟩
  · rw [hempty] at hmem
    exact Multiset.notMem_zero p hmem
  · exact hstop (h.cpu c hc)

/-- A program has been executed to its end where all threads have, or its deadline is
over. -/
theorem pc_of_ended_or_ticks {tr : List (Label ι)} {p : ℕ} (hcpus : 0 < cfg.numCpus)
    (hnull : ∀ q q', Q.getProc q none q' → Q.content q = 0)
    (hr : (system cfg Q).Run (start Q) tr s) (hp : p < cfg.programs.length)
    (h : Ended cfg s ∨ ∃ k, cfg.deadline p < k ∧
      ((system cfg Q).counted State.ticks).Run (start Q, 0) tr (s, k)) :
    s.pc p = cfg.size p := by
  rcases h with hended | ⟨k, hk, hrk⟩
  · exact hended.finished hcpus hnull ⟨_, tr, rfl, hr⟩ hp
  · by_contra hne
    exact absurd (le_deadline hcpus hnull hrk hp hne) (not_le.mpr hk)

/-- Every run that is long enough executes every program to its end. -/
theorem finished_of_longEnough {tr : List (Label ι)} {p : ℕ} (hcpus : 0 < cfg.numCpus)
    (hnull : ∀ q q', Q.getProc q none q' → Q.content q = 0)
    (hget : ∀ q, ∃ r q', Q.getProc q r q') (hr : (system cfg Q).Run (start Q) tr s)
    (hp : p < cfg.programs.length)
    (hlong : LongEnough cfg Q (cfg.statementBound (cfg.deadline p)) tr s) :
    s.pc p = cfg.size p :=
  pc_of_ended_or_ticks hcpus hnull hr hp (hlong.ended_or_ticks hget hr)

/-- One CPU comes to its end with the only program executed. -/
theorem finished_of_longEnough_oneInstruction :
    (drive oneInstruction 98 (start fifo)).2.pc 0 = 1 := by
  have hlong : LongEnough oneInstruction fifo (oneInstruction.statementBound
      (oneInstruction.deadline 0)) (drive oneInstruction 98 (start fifo)).1
      (drive oneInstruction 98 (start fifo)).2 :=
    .inl fun _ _ hlab => ended_oneInstruction.no_statement hlab
  exact finished_of_longEnough Nat.one_pos fifo_null fifo_total
    (run_of_drive oneInstruction 98 (start fifo)) Nat.one_pos hlong

end Os

end SimpleOs
