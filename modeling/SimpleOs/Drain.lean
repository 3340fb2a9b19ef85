import SimpleOs.Shutdown
import SimpleOs.SlotProgress

/-!
# The ready queue runs dry

Once the last program is added, the ready queue only gets back what the CPUs have taken
from it: a CPU that puts a process back calls `get_proc` next. So when `get_proc` has
once returned `NULL`, there are from then on no more processes in the queue than CPUs
between these two calls.

Results:
1. `drained_step`: a queue that has run dry stays so.
2. `drained_of_pastGet`: a CPU that finds no process, or has left its loop, has seen the
   queue run dry.
3. `newly_used`: as long as it has not, a CPU uses its slot for an instruction.
-/

namespace SimpleOs

namespace Os

variable {ι π : Type*} {cfg : Config ι} {Q : ReadyQueue π} {s s' : State π} {lab : Label ι}

/-! ## After the last program -/

/-- All programs are added, and the slot of the last one is over. -/
def State.settled (cfg : Config ι) (s : State π) : Prop :=
  s.loader.i = cfg.programs.length ∧ s.quiet

/-- The loader is behind its loop over the programs. -/
theorem settled_pc (ht : Threads cfg s) (h : s.settled cfg) :
    s.loader.pc = .whileLoad ∨ s.loader.pc = .setDone ∨ s.loader.pc = .leave ∨
      s.loader.pc = .stopped := by
  have hloading := ht.counter.loading
  rw [h.1] at hloading
  cases hpc : s.loader.pc with
  | whileLoad => exact .inl rfl
  | setDone => exact .inr (.inl rfl)
  | leave => exact .inr (.inr (.inl rfl))
  | stopped => exact .inr (.inr (.inr rfl))
  | slot => exact absurd hpc h.2.1
  | waitStart => exact absurd (hloading (.inl hpc)) (lt_irrefl _)
  | waitSlot => exact absurd (hloading (.inr (.inl hpc))) (lt_irrefl _)
  | addProc => exact absurd (hloading (.inr (.inr hpc))) (lt_irrefl _)

/-- A thread comes to be in a call before the tick by calling `next_slot` only. -/
theorem not_beforeTick_step {d : ℕ} (ht : Threads cfg s) (hst : Step cfg Q s lab s')
    (hd : d < cfg.devices) (hcall : ¬ lab.calls d) (hnot : ¬ (s.timer.toLocal d).beforeTick) :
    ¬ (s'.timer.toLocal d).beforeTick := by
  obtain ⟨hdetach, hslot⟩ := slotOf_step (k := 0) ht hst hd hcall
  intro hb
  have hnext := Timer.inNextSlot_of_beforeTick (ht.step hst).timer hd hb
  have hin : (s.timer.device d).pc.inDetach = false := by
    rw [← hdetach]
    cases hpc : (s'.timer.device d).pc <;> rw [hpc] at hnext <;> first | rfl | cases hnext
  have hahead := hslot hin
  rw [State.slotOf, State.slotOf, Timer.Local.ahead, Timer.Local.ahead, if_pos hb, if_neg hnot]
    at hahead
  omega

/-- The loader adds no more programs. -/
theorem settled_step (ht : Threads cfg s) (hst : Step cfg Q s lab s') (h : s.settled cfg) :
    s'.settled cfg ∧ ∀ i, lab ≠ .add i := by
  have hpc := settled_pc ht h
  obtain ⟨hi, hslot, hnot⟩ := h
  have hother : s'.loader = s.loader → ¬ lab.calls Config.loaderDevice → s'.settled cfg := by
    intro hloader hcall
    refine ⟨by rw [hloader]; exact hi, by rw [hloader]; exact hslot, ?_⟩
    exact not_beforeTick_step ht hst loaderDevice_lt hcall hnot
  cases hst with
  | cpu hc hw hget hm =>
    have hmove := cpuRoutine_move hget hm
    refine ⟨hother hmove.frame.2.1 (not_calls_of_none hmove.timerAct _), ?_⟩
    rintro i rfl
    cases hmove
  | cpuCall hc hcall hstep =>
    exact ⟨hother rfl (not_calls_of_cpuCall hcall (device_ne_loader hc)), nofun⟩
  | loader hw hm =>
    cases ldRoutine_move hm with
    | allLoaded | setDone => exact ⟨⟨hi, nofun, hnot⟩, nofun⟩
    | load h hlt => exact absurd hlt (by rw [hi]; exact lt_irrefl _)
    | early h | onTime h | addProc h => rw [h] at hpc; exact absurd hpc nofun
  | loaderCall hcall hstep =>
    rcases LoaderPc.call_eq hcall with ⟨rfl, ⟨h, -⟩ | ⟨h, -⟩⟩ | ⟨rfl, h, rfl⟩
    · rw [h] at hpc
      exact absurd hpc nofun
    · exact absurd h hslot
    · refine ⟨⟨hi, nofun, ?_⟩, nofun⟩
      have hdev := (timer_call (.inr rfl) hstep).2.2.2
      intro hb
      have hnext := Timer.inNextSlot_of_beforeTick (ht.timer.step hstep) loaderDevice_lt hb
      rw [hdev] at hnext
      cases hnext
  | timer ha hstep => exact ⟨hother rfl (not_calls_of_timer ha _), nofun⟩

/-- Before that, the last program's slot is not over. -/
theorem tick_lt_of_not_settled {k : ℕ} (ht : Threads cfg s) (hinv : LoadInv cfg s k)
    (h : ¬ s.settled cfg) : k < cfg.earliest cfg.programs.length := by
  have hk := (slotOf_bounds s k Config.loaderDevice).1
  rcases ht.counter.le.lt_or_eq with hlt | heq
  · have hpc : s.loader.pc ≠ .stopped := fun hpc =>
      absurd (ht.counter.finished (.inr (.inr hpc))) hlt.ne
    exact (hk.trans (onSchedule_le hinv hpc)).trans_lt (loadTick_lt_earliest cfg hlt)
  · have hquiet : s.loader.pc = .slot ∨ (s.timer.toLocal Config.loaderDevice).beforeTick := by
      by_contra hnot
      exact h ⟨heq, not_or.mp hnot⟩
    rw [← heq]
    rcases hquiet with hpc | hb
    · rw [LoadInv, hpc] at hinv
      exact lt_of_le_of_lt hk (Nat.lt_of_succ_le (le_of_eq hinv))
    · -- The loader has called `next_slot` behind its last program.
      have hslot : s.slotOf k Config.loaderDevice = k + 1 := congrArg (k + ·) (if_pos hb)
      have hloader := ht.loader
      rw [LoaderDevice, DeviceOf,
        if_pos (Timer.inNextSlot_of_beforeTick ht.timer loaderDevice_lt hb)] at hloader
      rcases hloader with hpc | hpc
      · rw [LoadInv, hpc, hslot] at hinv
        exact Nat.lt_of_succ_le (le_of_eq hinv)
      · exact absurd (ht.counter.loading (.inl hpc)) (by rw [heq]; exact lt_irrefl _)

/-! ## A queue that has run dry -/

/-- The CPU has put its process back and calls `get_proc` next. -/
def Cpu.owed (u : Cpu) : ℕ :=
  if u.pc = .getAfterPut then 1 else 0

/-- The number of CPUs between `put_proc` and `get_proc`. -/
def State.owed (cfg : Config ι) (s : State π) : ℕ :=
  ∑ c ∈ Finset.range cfg.numCpus, (s.cpu c).owed

/-- No more processes are in the queue than CPUs have just put there. -/
def Drained (cfg : Config ι) (Q : ReadyQueue π) (s : State π) : Prop :=
  Multiset.card (Q.content s.queue) ≤ s.owed cfg

theorem owed_setCpu {c : ℕ} (hc : c < cfg.numCpus) (u : Cpu)
    (hcpu : s'.cpu = Function.update s.cpu c u) :
    s'.owed cfg + (s.cpu c).owed = s.owed cfg + u.owed := by
  have hsum := Lts.sum_update_add (f := fun c => (s.cpu c).owed) hc u.owed
  have hfun : (fun d => (s'.cpu d).owed) =
      Function.update (fun d => (s.cpu d).owed) c u.owed := by
    funext d
    rw [hcpu, Function.update_apply, Function.update_apply]
    split <;> rfl
  unfold State.owed
  rw [hfun]
  exact hsum

theorem owed_le_one (u : Cpu) : u.owed ≤ 1 := by
  unfold Cpu.owed
  split
  · exact le_rfl
  · exact Nat.zero_le 1

/-- A statement of a CPU keeps a dry queue dry. -/
theorem CpuMove.drained {c : ℕ} (hm : CpuMove cfg Q s c lab s') (hc : c < cfg.numCpus)
    (hnull : ∀ q q', Q.getProc q none q' → Q.content q = 0) (h : Drained cfg Q s) :
    Drained cfg Q s' := by
  have hupdate : ∀ u : Cpu, s'.cpu = Function.update s.cpu c u →
      s'.owed cfg + (s.cpu c).owed = s.owed cfg + u.owed := fun u => owed_setCpu hc u
  have hsame : ∀ u : Cpu, s'.cpu = Function.update s.cpu c u → s'.queue = s.queue →
      u.owed = (s.cpu c).owed → Drained cfg Q s' := by
    intro u hcpu hqueue howed
    have hsum := hupdate u hcpu
    rw [howed] at hsum
    rw [Drained, hqueue, Nat.add_right_cancel hsum]
    exact h
  unfold Drained at h ⊢
  cases hm with
  | noProc hpc | finished hpc | running hpc | exit hpc | idle hpc | dispatch hpc | exec hpc =>
    exact hsame _ rfl rfl (by rw [Cpu.owed, Cpu.owed, hpc]; rfl)
  | expired hpc =>
    have hsum := hupdate _ rfl
    have hbefore : (s.cpu c).owed = 0 := if_neg (by rw [hpc]; nofun)
    rw [hbefore] at hsum
    dsimp only at hsum ⊢
    rw [Q.content_put, Multiset.card_cons]
    exact (Nat.succ_le_succ h).trans_eq hsum.symm
  | @got r q k hgets hk hget =>
    cases r with
    | none =>
      rw [Q.content_null hget, hnull _ _ hget]
      exact Nat.zero_le _
    | some p =>
      have hsum := hupdate _ rfl
      have hle := owed_le_one (s.cpu c)
      have hpc : (if (s.cpu c).pc = .getFirst ∧ some p = none then .slot else .recheck) ≠
          CpuPc.getAfterPut := afterGet_ne ⟨nofun, nofun⟩
      have hafter : Cpu.owed ⟨if (s.cpu c).pc = .getFirst ∧ some p = none then .slot else .recheck,
          some p, k⟩ = 0 := if_neg hpc
      rw [hafter] at hsum
      rw [Q.content_get hget, Multiset.card_cons] at h
      dsimp only at hsum ⊢
      omega

/-- A dry queue stays dry. -/
theorem drained_step (ht : Threads cfg s) (hst : Step cfg Q s lab s')
    (hnull : ∀ q q', Q.getProc q none q' → Q.content q = 0) (hsettled : s.settled cfg)
    (h : Drained cfg Q s) : Drained cfg Q s' := by
  have hadd := (settled_step ht hst hsettled).2
  cases hst with
  | cpu hc hw hget hm => exact (cpuRoutine_move hget hm).drained hc hnull h
  | @cpuCall c a pc t hc hcall hstep =>
    have hsum : State.owed cfg { s.setCpu c { s.cpu c with pc := pc } with timer := t } +
        (s.cpu c).owed = s.owed cfg + Cpu.owed { s.cpu c with pc := pc } := owed_setCpu hc _ rfl
    have howed : Cpu.owed { s.cpu c with pc := pc } = (s.cpu c).owed := by
      rcases CpuPc.call_eq hcall with ⟨-, hpc, rfl⟩ | ⟨-, hpc, rfl⟩ <;>
        rw [Cpu.owed, Cpu.owed, hpc] <;> rfl
    rw [howed] at hsum
    rw [Drained, Nat.add_right_cancel hsum]
    exact h
  | loader hw hm =>
    cases ldRoutine_move hm with
    | addProc => exact absurd rfl (hadd _)
    | _ => exact h
  | loaderCall | timer => exact h

/-- A CPU that finds no process has seen the queue empty. -/
theorem drained_of_null {c : ℕ} (hst : Step cfg Q s (.got c none) s')
    (hnull : ∀ q q', Q.getProc q none q' → Q.content q = 0) : Drained cfg Q s' := by
  cases hst with
  | cpu hc hw hget hm =>
    cases cpuRoutine_move hget hm with
    | got hgets hk hget =>
      show Multiset.card (Q.content _) ≤ _
      rw [Q.content_null hget, hnull _ _ hget]
      exact Nat.zero_le _
  | loader hw hm => cases ldRoutine_move hm

/-- A thread comes out of `next_slot` by a tick, with no CPU at work. -/
theorem not_pastGet_of_tick {c : ℕ} (ht : Threads cfg s) (hst : Step cfg Q s lab s')
    (hleft : (s.cpu c).left → s.done = true) (hc : c < cfg.numCpus)
    (hb : (s.timer.toLocal Config.loaderDevice).beforeTick)
    (hb' : ¬ (s'.timer.toLocal Config.loaderDevice).beforeTick) : ¬ (s.cpu c).pastGet := by
  intro hpast
  rcases step_timer hst with ⟨-, htimer⟩ | ⟨a, rfl, hstep⟩
  · rw [htimer] at hb'
    exact hb' hb
  · have hinc := Timer.incTime_of_beforeTick ht.timer hstep loaderDevice_lt hb hb'
    have hnw := Timer.not_working_of_incTime ht.timer hinc (device_lt cfg c)
    have hstopped : (s.cpu c).pc = .stopped := by
      by_contra hns
      refine hnw ((ht.cpu c hc).eq_working (fun htop => ?_) hns)
      rcases hpast with ⟨hp, -⟩ | hp | hp <;> cases htop.symm.trans hp
    have hdone := ht.counter.done_iff.mp (hleft (.inr hstopped))
    have hloader := ht.loader
    rw [LoaderDevice, DeviceOf,
      if_pos (Timer.inNextSlot_of_beforeTick ht.timer loaderDevice_lt hb)] at hloader
    rcases hdone with hp | hp <;> simp [hp] at hloader

/-- The CPUs past their final `get_proc` have seen the queue run dry. -/
def DrainInv (cfg : Config ι) (Q : ReadyQueue π) (s : State π) : Prop :=
  s.settled cfg → ∀ c < cfg.numCpus, (s.cpu c).pastGet → Drained cfg Q s

/-- A statement of a CPU. -/
theorem CpuMove.drainInv {c : ℕ} (hm : CpuMove cfg Q s c lab s') (ht : Threads cfg s)
    (hst : Step cfg Q s lab s') (hc : c < cfg.numCpus)
    (hnull : ∀ q q', Q.getProc q none q' → Q.content q = 0) (h : DrainInv cfg Q s) :
    DrainInv cfg Q s' := by
  intro hsettled c' hc' hpast
  have hbefore : s.settled cfg := by
    obtain ⟨htimer, hloader, -⟩ := hm.frame
    rwa [State.settled, State.quiet, htimer, hloader] at hsettled
  rcases eq_or_ne c' c with rfl | hcc
  · rcases hm.pastGet hnull hpast with hzero | ⟨hpast', -⟩
    · rw [Drained, hzero]
      exact Nat.zero_le _
    · exact drained_step ht hst hnull hbefore (h hbefore c' hc' hpast')
  · rw [cpuMove_other hm hcc] at hpast
    exact drained_step ht hst hnull hbefore (h hbefore c' hc' hpast)

/-- Every step. -/
theorem DrainInv.step (ht : Threads cfg s) (hst : Step cfg Q s lab s')
    (hleft : ∀ c < cfg.numCpus, (s.cpu c).left → s.done = true)
    (hnull : ∀ q q', Q.getProc q none q' → Q.content q = 0) (h : DrainInv cfg Q s) :
    DrainInv cfg Q s' := by
  have hkeep : s.settled cfg → ∀ c < cfg.numCpus, (s.cpu c).pastGet → Drained cfg Q s' :=
    fun hs c hc hp => drained_step ht hst hnull hs (h hs c hc hp)
  have hframe : s'.loader = s.loader → s'.settled cfg → ∀ c < cfg.numCpus, (s.cpu c).pastGet →
      Drained cfg Q s' := by
    intro hloader hsettled c hc hp
    by_cases hb : (s.timer.toLocal Config.loaderDevice).beforeTick
    · exact absurd hp (not_pastGet_of_tick ht hst (hleft c hc) hc hb hsettled.2.2)
    · refine hkeep ⟨?_, ?_, hb⟩ c hc hp
      · rw [← hloader]
        exact hsettled.1
      · rw [← hloader]
        exact hsettled.2.1
  intro hsettled c hc hp
  cases hst with
  | cpu hc' hw hget hm =>
    exact (cpuRoutine_move hget hm).drainInv ht (.cpu hc' hw hget hm) hc' hnull h hsettled c hc hp
  | @cpuCall c' a pc t hc' hcall hstep =>
    refine hframe rfl hsettled c hc ?_
    change ((s.setCpu c' _).cpu c).pastGet at hp
    rw [setCpu_cpu] at hp
    split at hp
    · next heq =>
      subst heq
      rcases CpuPc.call_eq hcall with ⟨-, -, rfl⟩ | ⟨-, hpc, rfl⟩
      · exact absurd hp (Cpu.not_pastGet (.inl nofun) ⟨nofun, nofun⟩)
      · exact .inr (.inl hpc)
    · exact hp
  | loader hw hm =>
    have hmove := ldRoutine_move hm
    obtain ⟨hcpu, htimer, -⟩ := hmove.frame
    rw [hcpu] at hp
    refine hkeep ?_ c hc hp
    rw [State.settled, State.quiet, htimer] at hsettled
    cases hmove with
    | addProc => exact absurd rfl hsettled.2.1
    | load hpc | allLoaded hpc | early hpc | onTime hpc | setDone hpc =>
      exact ⟨hsettled.1, by simp [hpc], hsettled.2.2⟩
  | loaderCall hcall hstep =>
    rcases LoaderPc.call_eq hcall with ⟨rfl, -⟩ | ⟨rfl, hpc, rfl⟩
    · exact absurd (beforeTick_nextSlot hstep) hsettled.2.2
    · refine hkeep ⟨hsettled.1, by simp [hpc], ?_⟩ c hc hp
      exact Timer.not_beforeTick ht.timer loaderDevice_lt (timer_call (.inr rfl) hstep).2.1
  | timer ha hstep => exact hframe rfl hsettled c hc hp

theorem drainInv_of_reachable (hnull : ∀ q q', Q.getProc q none q' → Q.content q = 0)
    (hs : (system cfg Q).Reachable s) : DrainInv cfg Q s := by
  obtain ⟨s₀, tr, rfl, hr⟩ := hs
  refine hr.trace_invariant (I := fun _ s => DrainInv cfg Q s) ?_ ?_
  · intro _ c _ hp
    exact absurd hp (Cpu.not_pastGet (.inl nofun) ⟨nofun, nofun⟩)
  · intro tr s lab s' hr h hst
    have hreach : (system cfg Q).Reachable s := ⟨_, tr, rfl, hr⟩
    exact h.step (threads_of_reachable hreach) hst
      (shutdownInv_of_reachable hnull hreach).left hnull

/-! ## How a slot is used -/

/-- A CPU uses its slot by executing an instruction of its process, or because it has
none. -/
theorem newly_used {c : ℕ} (ht : Threads cfg s) (hst : Step cfg Q s lab s')
    (hc : c < cfg.numCpus) (hnot : ¬ s.cpuUsed cfg c) (hused : s'.cpuUsed cfg c) :
    (∃ p ins, lab = .run c p ins ∧ s'.holds c p) ∨
      (s'.cpu c).proc = none ∧ (lab = .got c none ∨ (s.cpu c).pastGet) := by
  have hpc : ¬ (s.cpu c).pc = .slot := fun h => hnot (.inl h)
  have hb : ¬ (s.timer.toLocal (cfg.device c)).beforeTick := fun h => hnot (.inr h)
  rcases step_cpu hc hst with ⟨hlab, hcpu⟩ | ⟨hlab, hmove | ⟨a, pc, hcall, hcpu⟩⟩
  · rcases hused with h | h
    · rw [hcpu] at h
      exact absurd h hpc
    · exact absurd h (not_beforeTick_step ht hst (device_lt cfg c) (not_calls_of_other hlab) hb)
  · have hslot : (s'.cpu c).pc = .slot := by
      refine hused.resolve_right fun h => hb ?_
      rwa [hmove.frame.1] at h
    cases hmove with
    | exec =>
      exact .inl ⟨_, _, rfl, by simp [State.holds, Cpu.holds, State.setCpu]⟩
    | @got r q k hgets hk hget =>
      cases r with
      | none => exact .inr ⟨by simp, .inl rfl⟩
      | some p => simp at hslot
    | idle hrecheck hproc => exact .inr ⟨by simp, .inr (.inl ⟨hrecheck, hproc⟩)⟩
    | noProc | finished | expired | running | exit | dispatch => simp at hslot
  · rcases CpuPc.call_eq hcall with ⟨-, h, -⟩ | ⟨-, -, rfl⟩
    · exact absurd h hpc
    · rcases hused with h | h
      · rw [hcpu] at h
        cases h
      · -- A CPU that has stopped is in no call of `next_slot`.
        have hdevice := (ht.step hst).cpu c hc
        rw [CpuDevice, DeviceOf,
          if_pos (Timer.inNextSlot_of_beforeTick (ht.step hst).timer (device_lt cfg c) h), hcpu]
          at hdevice
        cases hdevice

end Os

end SimpleOs
