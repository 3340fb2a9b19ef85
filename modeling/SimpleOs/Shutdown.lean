import SimpleOs.Threads

/-!
# Shutdown

A CPU leaves its loop when a call of `get_proc` has returned `NULL` and `done`
is set afterwards. Between the two it holds no lock, so a process added there
would be missed. The slot barrier excludes this: between its last `add_proc`
and the store of `done` the loader goes through `next_slot`, which does not
return while the CPU is still at work.

Results:
1. `shutdownInv_of_reachable`: if every CPU has made what may be its final call
   of `get_proc`, and the loader has gone through the slot of its last
   `add_proc`, the ready queue is empty.
2. `no_process_lost`: when a CPU leaves its loop, every program has been added,
   and none of them is out of reach of the CPUs that remain; when all CPUs have
   stopped, every program has run to its end.
-/

namespace SimpleOs

namespace Os

open Custody (Loc Event)

variable {ι π : Type*} {cfg : Config ι} {Q : ReadyQueue π}

/-- The CPU has made a call of `get_proc` that may be its final one. -/
def Cpu.pastGet (u : Cpu) : Prop :=
  u.pc = .recheck ∧ u.proc = none ∨ u.pc = .leave ∨ u.pc = .stopped

/-- The CPU has left its loop. -/
def Cpu.left (u : Cpu) : Prop :=
  u.pc = .leave ∨ u.pc = .stopped

/-- The loader has gone through the slot of its last `add_proc`. -/
def State.quiet (s : State π) : Prop :=
  s.loader.pc ≠ .slot ∧ ¬ (s.timer.toLocal Config.loaderDevice).beforeTick

/-- The invariant that rules out a process left behind. -/
structure ShutdownInv (cfg : Config ι) (Q : ReadyQueue π) (s : State π) : Prop where
  cpus : ∀ c, cfg.numCpus ≤ c → s.cpu c = ⟨.top, none, 0⟩
  cpu : ∀ c < cfg.numCpus, CpuDevice cfg s c
  loader : LoaderDevice s
  counter : LoaderInv cfg s.loader.i s.done s.loader.pc
  left : ∀ c < cfg.numCpus, (s.cpu c).left → s.done = true
  empty : 0 < cfg.numCpus → (∀ c < cfg.numCpus, (s.cpu c).pastGet) → s.quiet →
    Q.content s.queue = 0

theorem shutdownInv_start : ShutdownInv cfg Q (start Q) where
  cpus c _ := rfl
  cpu := threads_start.cpu
  loader := (@threads_start ι π cfg Q).loader
  counter := threads_start.counter
  left c _ h := by simp [start, Cpu.left] at h
  empty _ _ _ := Q.content_empty

theorem Cpu.not_pastGet {u : Cpu} (hrecheck : u.pc ≠ .recheck ∨ u.proc ≠ none)
    (hpc : u.pc ≠ .leave ∧ u.pc ≠ .stopped) : ¬ u.pastGet := by
  rintro (⟨h, hproc⟩ | h | h)
  · exact hrecheck.elim (absurd h) (absurd hproc)
  · exact hpc.1 h
  · exact hpc.2 h

/-- A CPU past its final `get_proc` has just found no process, or was past it before. -/
theorem CpuMove.pastGet {s s' : State π} {c : ℕ} {lab : Label ι} (hm : CpuMove cfg Q s c lab s')
    (hnull : ∀ q q', Q.getProc q none q' → Q.content q = 0) (hpast : (s'.cpu c).pastGet) :
    Q.content s'.queue = 0 ∨ (s.cpu c).pastGet ∧ s'.queue = s.queue := by
  have hself : ∀ u : Cpu, (Function.update s.cpu c u c).pastGet → u.pastGet := fun u h => by
    rwa [Function.update_self] at h
  cases hm with
  | noProc | finished | expired | idle | dispatch | exec =>
    exact absurd (hself _ hpast) (Cpu.not_pastGet (.inl nofun) ⟨nofun, nofun⟩)
  | running => exact absurd (hself _ hpast) (Cpu.not_pastGet (.inr nofun) ⟨nofun, nofun⟩)
  | exit hpc hproc => exact .inr ⟨.inl ⟨hpc, hproc⟩, rfl⟩
  | @got r q k hgets hk hget =>
    cases r with
    | none => exact .inl ((Q.content_null hget).trans (hnull _ _ hget))
    | some p =>
      exact absurd (hself _ hpast) (Cpu.not_pastGet (.inr nofun)
        ⟨afterGet_ne ⟨nofun, nofun⟩, afterGet_ne ⟨nofun, nofun⟩⟩)

/-- Statements of a CPU. -/
theorem CpuMove.shutdown {s s' : State π} {c : ℕ} {lab : Label ι}
    (hm : CpuMove cfg Q s c lab s') (hc : c < cfg.numCpus)
    (hnull : ∀ q q', Q.getProc q none q' → Q.content q = 0) (ht' : Threads cfg s')
    (h : ShutdownInv cfg Q s) : ShutdownInv cfg Q s' := by
  obtain ⟨u, hcpu, hnot, hleave⟩ := hm.cpu_eq
  obtain ⟨htimer, hloader, hdone⟩ := hm.frame
  have hself : s'.cpu c = u := by rw [hcpu, Function.update_self]
  have hother : ∀ c', c' ≠ c → s'.cpu c' = s.cpu c' := fun c' hc' => by
    rw [hcpu, Function.update_of_ne hc']
  refine ⟨fun c' hc' => ?_, ht'.cpu, ht'.loader, ht'.counter, fun c' hc' hl => ?_,
    fun hpos hall hq => ?_⟩
  · rw [hother c' (ne_of_gt (Nat.lt_of_lt_of_le hc hc'))]
    exact h.cpus c' hc'
  · rw [hdone]
    rcases eq_or_ne c' c with rfl | hcc
    · rw [hself] at hl
      exact hleave (hl.resolve_right hnot)
    · rw [hother c' hcc] at hl
      exact h.left c' hc' hl
  · rcases hm.pastGet hnull (hall c hc) with hzero | ⟨hpast, hqueue⟩
    · exact hzero
    · rw [hqueue]
      refine h.empty hpos (fun c' hc' => ?_) (by rwa [State.quiet, htimer, hloader] at hq)
      rcases eq_or_ne c' c with rfl | hcc
      · exact hpast
      · rw [← hother c' hcc]
        exact hall c' hc'

/-- A working device has no tick to wait for. -/
theorem not_beforeTick_of_working {n : ℕ} {t : Timer.State} {d : ℕ}
    (ht : (Timer.system n).Reachable t) (hd : d < n) (hw : (t.device d).pc = .working) :
    ¬ (t.toLocal d).beforeTick := fun hb => by
  have hin := Timer.inNextSlot_of_beforeTick ht hd hb
  rw [hw] at hin
  cases hin

/-- Statements of the loader. -/
theorem LoaderMove.shutdown {s s' : State π} {lab : Label ι} (hm : LoaderMove cfg Q s lab s')
    (ht : Threads cfg s) (ht' : Threads cfg s')
    (hw : (s.timer.device Config.loaderDevice).pc = .working) (h : ShutdownInv cfg Q s) :
    ShutdownInv cfg Q s' := by
  obtain ⟨hcpu, -, -, hdone⟩ := hm.frame
  have hqueue : s'.quiet → s'.queue = s.queue ∧ s.quiet := by
    intro hq
    have hnb := not_beforeTick_of_working ht.timer loaderDevice_lt hw
    cases hm with
    | addProc => exact absurd rfl hq.1
    | load hpc | allLoaded hpc | early hpc | onTime hpc | setDone hpc =>
      exact ⟨rfl, by rw [hpc]; nofun, hnb⟩
  refine ⟨by rw [hcpu]; exact h.cpus, ht'.cpu, ht'.loader, ht'.counter,
    fun c hc hl => hdone (h.left c hc (by rwa [hcpu] at hl)), fun hpos hall hq => ?_⟩
  obtain ⟨heq, hq'⟩ := hqueue hq
  rw [heq]
  exact h.empty hpos (by rwa [hcpu] at hall) hq'

/-- Steps of the timer that no thread outside it calls. -/
theorem ShutdownInv.timer {s : State π} {t : Timer.State} {a : Timer.Act}
    (h : ShutdownInv cfg Q s) (ht : (Timer.system cfg.devices).Reachable s.timer)
    (ht' : Threads cfg { s with timer := t })
    (hst : Timer.step cfg.devices s.timer a = some t) :
    ShutdownInv cfg Q { s with timer := t } := by
  refine ⟨h.cpus, ht'.cpu, ht'.loader, ht'.counter, h.left, fun hpos hall hq => ?_⟩
  by_cases hb : (s.timer.toLocal Config.loaderDevice).beforeTick
  · -- The tick finds no CPU at work: CPU 0 has stopped, so the loader has set `done`.
    have hinc := Timer.incTime_of_beforeTick ht hst loaderDevice_lt hb hq.2
    have hnw := Timer.not_working_of_incTime ht hinc (device_lt cfg 0)
    have hstopped : (s.cpu 0).pc = .stopped := by
      by_contra hns
      refine hnw ((h.cpu 0 hpos).eq_working (fun htop => ?_) hns)
      rcases hall 0 hpos with ⟨hp, -⟩ | hp | hp <;> simp [htop] at hp
    have hdone := h.counter.done_iff.mp (h.left 0 hpos (.inr hstopped))
    have hin := Timer.inNextSlot_of_beforeTick ht loaderDevice_lt hb
    have hloader := h.loader
    rw [LoaderDevice, DeviceOf, if_pos hin] at hloader
    rcases hdone with hp | hp <;> simp [hp] at hloader
  · exact h.empty hpos hall ⟨hq.1, hb⟩

/-- The calls of a CPU. -/
theorem ShutdownInv.cpuCall {s : State π} {t : Timer.State} {a : Timer.Act} {c : ℕ} {pc : CpuPc}
    (h : ShutdownInv cfg Q s) (hc : c < cfg.numCpus)
    (ht' : Threads cfg { s.setCpu c { s.cpu c with pc := pc } with timer := t })
    (hcall : (s.cpu c).pc.call (cfg.device c) = some (a, pc))
    (hst : Timer.step cfg.devices s.timer a = some t) :
    ShutdownInv cfg Q { s.setCpu c { s.cpu c with pc := pc } with timer := t } := by
  have ha := CpuPc.call_eq hcall
  obtain ⟨-, -, hother, -⟩ := timer_call (ha.imp And.left And.left) hst
  have hloader := hother _ (device_ne_loader hc).symm
  refine ⟨fun c' hc' => ?_, ht'.cpu, ht'.loader, ht'.counter, fun c' hc' hl => ?_,
    fun hpos hall hq => ?_⟩
  · have hne : c' ≠ c := by omega
    simpa [State.setCpu, Function.update_of_ne hne] using h.cpus c' hc'
  · rcases eq_or_ne c' c with rfl | hcc
    · rcases ha with ⟨rfl, hpc, rfl⟩ | ⟨rfl, hpc, rfl⟩
      · simp [Cpu.left, State.setCpu] at hl
      · exact h.left c' hc' (.inl hpc)
    · exact h.left c' hc' (by simpa [State.setCpu, Function.update_of_ne hcc] using hl)
  · have hq' : s.quiet := ⟨hq.1, by have := hq.2; rwa [hloader] at this⟩
    refine h.empty hpos (fun c' hc' => ?_) hq'
    rcases eq_or_ne c' c with rfl | hcc
    · have hpast := hall c' hc'
      rcases ha with ⟨rfl, hpc, rfl⟩ | ⟨rfl, hpc, rfl⟩
      · simp [Cpu.pastGet, State.setCpu] at hpast
      · exact .inr (.inl hpc)
    · simpa [State.setCpu, Function.update_of_ne hcc] using hall c' hc'

/-- The calls of the loader. -/
theorem ShutdownInv.loaderCall {s : State π} {t : Timer.State} {a : Timer.Act} {pc : LoaderPc}
    (h : ShutdownInv cfg Q s) (ht : (Timer.system cfg.devices).Reachable s.timer)
    (ht' : Threads cfg { s with loader := ⟨pc, s.loader.i⟩, timer := t })
    (hcall : s.loader.pc.call Config.loaderDevice = some (a, pc))
    (hst : Timer.step cfg.devices s.timer a = some t) :
    ShutdownInv cfg Q { s with loader := ⟨pc, s.loader.i⟩, timer := t } := by
  have ha := LoaderPc.call_eq hcall
  obtain ⟨-, hw, -, hdev⟩ := timer_call (ha.imp And.left And.left) hst
  refine ⟨h.cpus, ht'.cpu, ht'.loader, ht'.counter, h.left, fun hpos hall hq => ?_⟩
  rcases ha with ⟨rfl, -⟩ | ⟨rfl, hpc, rfl⟩
  · exact absurd (.inl (by simpa [Timer.State.toLocal] using hdev)) hq.2
  · exact h.empty hpos hall ⟨by simp [hpc], not_beforeTick_of_working ht loaderDevice_lt hw⟩

/-- The shutdown invariant holds in every reachable state. -/
theorem shutdownInv_of_reachable (hnull : ∀ q q', Q.getProc q none q' → Q.content q = 0)
    {s : State π} (hs : (system cfg Q).Reachable s) : ShutdownInv cfg Q s := by
  have hinv : Threads cfg s ∧ ShutdownInv cfg Q s := by
    refine hs.invariant (I := fun s => Threads cfg s ∧ ShutdownInv cfg Q s) ?_ ?_
    · rintro s rfl
      exact ⟨threads_start, shutdownInv_start⟩
    · rintro s lab s' ⟨ht, h⟩ hst
      have ht' := ht.step hst
      refine ⟨ht', ?_⟩
      cases hst with
      | cpu hc hw hget hm => exact (cpuRoutine_move hget hm).shutdown hc hnull ht' h
      | cpuCall hc hcall hst => exact h.cpuCall hc ht' hcall hst
      | loader hw hm => exact (ldRoutine_move hm).shutdown ht ht' hw h
      | loaderCall hcall hst => exact h.loaderCall ht.timer ht' hcall hst
      | timer ha hst => exact h.timer ht.timer ht' hst
  exact hinv.2

/-! ## No process is lost -/

/-- Whenever CPU `c` has left its loop, the loader has added every program, and
each of them is finished, or held by a CPU that has still to make its final
`get_proc`, or in the ready queue while such a CPU remains. When all CPUs have
stopped, every program has been executed to its end. -/
theorem no_process_lost (hnull : ∀ q q', Q.getProc q none q' → Q.content q = 0) {s : State π}
    (hs : (system cfg Q).Reachable s) {c : ℕ} (hc : c < cfg.numCpus) (hleft : (s.cpu c).left) :
    s.loader.i = cfg.programs.length ∧
    (∀ p < cfg.programs.length, s.pc p = cfg.size p ∨
      (∃ c' < cfg.numCpus, s.holds c' p ∧ ¬ (s.cpu c').pastGet) ∨
      (p ∈ Q.content s.queue ∧ ∃ c' < cfg.numCpus, ¬ (s.cpu c').pastGet)) ∧
    ((∀ c' < cfg.numCpus, (s.cpu c').pc = .stopped) →
      ∀ p < cfg.programs.length, s.pc p = cfg.size p) := by
  have ht := timer_reachable hs
  have hinv := shutdownInv_of_reachable hnull hs
  obtain ⟨s₀, tr, rfl, hr⟩ := hs
  obtain ⟨hcpu, l, -, hl⟩ := run_located hr
  have hpc := hinv.counter.done_iff.mp (hinv.left c hc hleft)
  have hi : s.loader.i = cfg.programs.length := hinv.counter.finished (.inr hpc)
  have hquiet : s.quiet := by
    refine ⟨by rcases hpc with h | h <;> simp [h], fun hb => ?_⟩
    have hloader := hinv.loader
    rw [LoaderDevice, DeviceOf, if_pos (Timer.inNextSlot_of_beforeTick ht loaderDevice_lt hb)]
      at hloader
    rcases hpc with h | h <;> simp [h] at hloader
  have hcases : ∀ p < cfg.programs.length, s.pc p = cfg.size p ∨
      (∃ c' < cfg.numCpus, s.holds c' p ∧ ¬ (s.cpu c').pastGet) ∨
      (p ∈ Q.content s.queue ∧ ∃ c' < cfg.numCpus, ¬ (s.cpu c').pastGet) := by
    intro p hp
    cases hloc : l p with
    | unborn => exact absurd ((hl.unborn p).mp hloc) (by omega)
    | gone => exact .inl (hl.gone p hloc)
    | held c' =>
      have hheld := (hl.held c' p).mpr hloc
      have hproc : (s.cpu c').proc ≠ none := by simp [hheld.1]
      have hc' : c' < cfg.numCpus := by
        by_contra hge
        exact hproc (by rw [hinv.cpus c' (Nat.le_of_not_lt hge)])
      refine .inr (.inl ⟨c', hc', hheld, ?_⟩)
      rintro (⟨-, hnone⟩ | hended)
      · exact hproc hnone
      · exact hproc ((hcpu c').ended hended)
    | pooled =>
      have hmem : p ∈ Q.content s.queue := by
        rw [← Multiset.one_le_count_iff_mem, hl.queue p, if_pos hloc]
      refine .inr (.inr ⟨hmem, ?_⟩)
      by_contra hnone
      push Not at hnone
      rw [hinv.empty (by omega) hnone hquiet] at hmem
      exact absurd hmem (Multiset.notMem_zero p)
  refine ⟨hi, hcases, fun hall p hp => ?_⟩
  have hpast : ¬ ∃ c' < cfg.numCpus, ¬ (s.cpu c').pastGet := by
    rintro ⟨c', hc', hn⟩
    exact hn (.inr (.inr (hall c' hc')))
  rcases hcases p hp with h | ⟨c', hc', -, hn⟩ | ⟨-, h⟩
  · exact h
  · exact absurd ⟨c', hc', hn⟩ hpast
  · exact absurd h hpast

/-- One CPU, slices of one slot, and one program of one instruction. -/
def oneInstruction : Config ℕ where
  timeSlot := 1
  numCpus := 1
  programs := [⟨[10], 0⟩]

/-- The first slot as in `firstSlice`; in the second the loader sets `done`, and the
CPU frees its process, finds no other and stops. -/
def firstShutdown : List Thread :=
  firstSlice ++ List.replicate 3 (Thread.timer (.device 0)) ++ List.replicate 2 Thread.loader ++
  List.replicate 4 (Thread.cpu 0)

/-- A run in which the only CPU stops: its program has been executed. -/
theorem no_process_lost_one_instruction :
    ∃ tr s, moves oneInstruction firstShutdown (start fifo) = some (tr, s) ∧
      (s.cpu 0).pc = .stopped ∧ s.pc 0 = 1 := by
  have hmoves : (moves oneInstruction firstShutdown (start fifo)).any
      (fun x => (x.2.cpu 0).pc = .stopped) = true := by
    decide +kernel
  obtain ⟨⟨tr, s⟩, htr, hstop⟩ := (Option.any_eq_true _ _).mp hmoves
  replace hstop : (s.cpu 0).pc = .stopped := of_decide_eq_true hstop
  have hnull : ∀ q q', fifo.getProc q none q' → fifo.content q = 0 := by
    rintro (_ | ⟨p, q⟩) _ ⟨h, -⟩
    · rfl
    · cases h
  have hs : (system oneInstruction fifo).Reachable s := ⟨_, tr, rfl, run_of_moves htr⟩
  have hlost := no_process_lost hnull hs Nat.one_pos (.inr hstop)
  have hall : ∀ c < oneInstruction.numCpus, (s.cpu c).pc = .stopped := by
    intro c hc
    obtain rfl : c = 0 := Nat.lt_one_iff.mp hc
    exact hstop
  exact ⟨tr, s, htr, hstop, hlost.2.2 hall 0 Nat.one_pos⟩

end Os

end SimpleOs
