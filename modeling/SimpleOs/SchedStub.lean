import SimpleOs.Lib.Product
import SimpleOs.SchedLock
import SimpleOs.SlotRate

/-!
# The scheduler as it stands

In `queue.c` the bodies of `enqueue` and `dequeue` are still to be written, and
`get_proc` returns the `NULL` it starts with. This module runs the CPUs and the loader
with these functions: the whole system beside the threads of `queue_lock`, where a call
of `get_proc`, `put_proc` or `add_proc` begins alone, goes through its statements, and
returns together with the caller's step.

Results:
1. `loops_of_reachable`: no CPU ever has a process, and none leaves its loop.
2. `GetOnce`: with the multi-level queue at most one call of `get_proc` ever returns.
3. `stalls`: hence the clock stops in the first slot, or in the second one with a
   single CPU, and at most one program is added.
-/

namespace SimpleOs

open Lts (Joint)

/-! ## The lock -/

namespace SchedLock

variable {τ : Type*} [DecidableEq τ] {build : Build} {s s' : State τ}

/-- The function that a thread is in. -/
def Pos.fn : Pos → Option Fn
  | .outside => none
  | .setKrnl f | .lock f | .body f | .unlock f | .ret f => some f

/-- The thread is in `f`, behind its `pthread_mutex_lock`. -/
def Pos.past (f : Fn) : Pos → Bool
  | .body g | .unlock g | .ret g => f = g
  | .outside | .setKrnl _ | .lock _ => false

theorem Pos.fn_of_past {f : Fn} {p : Pos} (h : p.past f = true) : p.fn = some f := by
  cases p <;> first | exact congrArg some (of_decide_eq_true h).symm | cases h

/-- What a step does to the places of the threads: it moves its own thread only, into a
function at a call, out of it at the return, and behind the lock where it acquires it. -/
structure Moved (s s' : State τ) (t : τ) (act : Act) : Prop where
  other : ∀ u, u ≠ t → s'.pos u = s.pos u
  call : ∀ f, act = .call f → (s'.pos t).fn = some f
  ret : ∀ f, act = .ret f → s.pos t = .ret f ∧ s'.pos t = .outside
  stays : (∀ f, act ≠ .call f ∧ act ≠ .ret f) → (s'.pos t).fn = (s.pos t).fn
  past : ∀ f, act ≠ .acquire f → (s'.pos t).past f = true → (s.pos t).past f = true

theorem step_moved {t : τ} {act : Act} (h : (threads τ build).step s (t, act) s') :
    Moved s s' t act := by
  -- All but the acquisition and the release leave the lock alone.
  have hmove : ∀ (lock : Option τ) {p : Pos}, s' = { s.move t p with queueLock := lock } →
      (∀ u, u ≠ t → s'.pos u = s.pos u) ∧ s'.pos t = p := by
    rintro lock p rfl
    exact ⟨fun u hu => move_pos_of_ne _ _ _ _ hu, move_pos_self s t p⟩
  cases act with
  | call g =>
    obtain ⟨hother, hself⟩ := hmove s.queueLock h.2
    refine ⟨hother, ?_, by simp, fun h => absurd rfl (h g).1, ?_⟩
    · rintro f ⟨⟩
      rw [hself]
      cases g <;> rfl
    · intro f _ hp
      rw [hself] at hp
      cases g <;> cases hp
  | setKrnl g =>
    obtain ⟨hother, hself⟩ := hmove s.queueLock h.2
    refine ⟨hother, by simp, by simp, fun _ => by rw [hself, h.1]; rfl, fun f _ hp => ?_⟩
    rw [hself] at hp
    cases hp
  | acquire g =>
    obtain ⟨hother, hself⟩ := hmove (some t) h.2.2
    refine ⟨hother, by simp, by simp, fun _ => by rw [hself, h.1]; rfl, fun f hf hp => ?_⟩
    rw [hself] at hp
    exact absurd (congrArg Act.acquire (of_decide_eq_true hp).symm) hf
  | body g =>
    obtain ⟨hother, hself⟩ := hmove s.queueLock h.2
    refine ⟨hother, by simp, by simp, fun _ => ?_, fun f _ hp => ?_⟩
    · rw [hself, h.1]
      cases build <;> cases g <;> rfl
    · rw [hself] at hp
      rw [h.1]
      cases build <;> cases g <;> exact hp
  | release g =>
    obtain ⟨hother, hself⟩ := hmove none h.2
    refine ⟨hother, by simp, by simp, fun _ => by rw [hself, h.1]; rfl, fun f _ hp => ?_⟩
    rw [hself] at hp
    rw [h.1]
    exact hp
  | ret g =>
    obtain ⟨hother, hself⟩ := hmove s.queueLock h.2
    refine ⟨hother, by simp, ?_, fun h => absurd rfl (h g).2, fun f _ hp => ?_⟩
    · rintro f ⟨⟩
      exact ⟨h.1, hself⟩
    · rw [hself] at hp
      cases hp

/-- The lock has been acquired for no `get_proc` yet, or it is lost to one; `n` calls of
`get_proc` have returned. -/
def GetOnce (s : State τ) (n : ℕ) : Prop :=
  n = 0 ∧ (∀ t, (s.pos t).past .getProc = false) ∨
    Lost s ∧ ∃ t, (∀ u, (s.pos u).past .getProc = true → u = t) ∧
      n + (if (s.pos t).past .getProc then 1 else 0) ≤ 1

/-- Nobody acquires a lost lock. -/
theorem Lost.not_acquire {t : τ} {f : Fn} (h : Lost s) :
    ¬ (threads τ build).step s (t, .acquire f) s' := by
  rintro ⟨-, hnone, -⟩
  obtain ⟨u, hlock, -⟩ := h
  rw [hlock] at hnone
  cases hnone

theorem GetOnce.step {n : ℕ} {t : τ} {act : Act} (h : GetOnce s n) (howned : Owned s)
    (hst : (threads τ .mlq).step s (t, act) s') :
    GetOnce s' (n + if act = .ret .getProc then 1 else 0) := by
  have hm := step_moved hst
  rcases h with ⟨rfl, hnone⟩ | ⟨hlost, v, hv, hle⟩
  · by_cases hacq : act = .acquire .getProc
    · subst hacq
      obtain ⟨-, -, rfl⟩ := hst
      refine .inr ⟨⟨t, rfl, fun _ => move_pos_self s t _⟩, t, fun u hu => ?_, ?_⟩
      · by_contra hne
        rw [hm.other u hne, hnone u] at hu
        cases hu
      · rw [if_neg nofun, Nat.add_zero, Nat.zero_add]
        split <;> decide
    · have hact : act ≠ .ret .getProc := by
        rintro rfl
        have hout := hnone t
        rw [(hm.ret _ rfl).1] at hout
        cases hout
      rw [if_neg hact]
      refine .inl ⟨rfl, fun u => ?_⟩
      rcases eq_or_ne u t with rfl | hne
      · exact Bool.eq_false_iff.mpr fun h => Bool.eq_false_iff.mp (hnone u) (hm.past _ hacq h)
      · rw [hm.other u hne, hnone u]
  · have hacq : act ≠ .acquire .getProc := by
      rintro rfl
      exact hlost.not_acquire hst
    have hkeep : ∀ u, (s'.pos u).past .getProc = true → (s.pos u).past .getProc = true := by
      intro u hu
      rcases eq_or_ne u t with rfl | hne
      · exact hm.past _ hacq hu
      · rwa [← hm.other u hne]
    refine .inr ⟨hlost.step howned hst, v, fun u hu => hv u (hkeep u hu), ?_⟩
    by_cases hact : act = .ret .getProc
    · obtain ⟨hpos, hout⟩ := hm.ret _ hact
      obtain rfl : t = v := hv t (by rw [hpos]; rfl)
      rw [hpos] at hle
      rw [hout, if_pos hact]
      exact hle
    · rw [if_neg hact, Nat.add_zero]
      refine le_trans (Nat.add_le_add_left ?_ n) hle
      split
      · next hin => rw [if_pos (hkeep v hin)]
      · exact Nat.zero_le _

omit [DecidableEq τ] in
theorem GetOnce.le_one {n : ℕ} (h : GetOnce s n) : n ≤ 1 := by
  rcases h with ⟨rfl, -⟩ | ⟨-, t, -, hle⟩
  · exact Nat.zero_le 1
  · exact (Nat.le_add_right _ _).trans hle

omit [DecidableEq τ] in
/-- Where a call of `get_proc` has returned, the lock is lost. -/
theorem GetOnce.lost {n : ℕ} (h : GetOnce s n) (hn : 0 < n) : Lost s := by
  rcases h with ⟨rfl, -⟩ | ⟨hlost, -⟩
  · exact absurd hn (lt_irrefl 0)
  · exact hlost

end SchedLock

namespace Os

variable {ι : Type*} {cfg : Config ι} {build : SchedLock.Build}

/-! ## The system -/

/-- The ready queue of the source: `get_proc` returns `NULL`. What is passed to
`put_proc` and `add_proc` is kept here, but no function of the source keeps or reads
it. -/
def stub : ReadyQueue (Multiset ℕ) where
  empty := 0
  content q := q
  getProc q r q' := r = none ∧ q' = q
  putProc p q := p ::ₘ q
  addProc p q := p ::ₘ q
  content_empty := rfl
  content_get := by
    rintro q p q' ⟨h, -⟩
    cases h
  content_null := by
    rintro q q' ⟨-, rfl⟩
    rfl
  content_put _ _ := rfl
  content_add _ _ := rfl

/-- The step that a call of the scheduler is for its caller. -/
def Label.schedCall : Label ι → Option (Thread × SchedLock.Fn)
  | .got c _ => some (.cpu c, .getProc)
  | .put c _ => some (.cpu c, .putProc)
  | .add _ => some (.loader, .addProc)
  | _ => none

/-- A thread enters a function of the scheduler where its next step is the call, and
takes this step together with the return. -/
def ByCall (cfg : Config ι) (x : (State (Multiset ℕ) × ℕ) × SchedLock.State Thread) :
    Joint (Label ι) (Thread × SchedLock.Act) → Prop
  | .left lab => lab.schedCall = none
  | .right (t, .call f) => ∃ lab s', Step cfg stub x.1.1 lab s' ∧ lab.schedCall = some (t, f)
  | .right (_, .ret _) => False
  | .right _ => True
  | .both lab (t, .ret f) => lab.schedCall = some (t, f)
  | .both _ _ => False

/-- The whole system, with its ticks counted, beside the threads of `queue_lock`. -/
def withLock (cfg : Config ι) (build : SchedLock.Build) :
    Lts ((State (Multiset ℕ) × ℕ) × SchedLock.State Thread)
      (Joint (Label ι) (Thread × SchedLock.Act)) :=
  ((system cfg stub).counted State.ticks).product (SchedLock.threads Thread build) (ByCall cfg)

/-- Before the first step. -/
def startLock : (State (Multiset ℕ) × ℕ) × SchedLock.State Thread :=
  ((start stub, 0), ⟨none, fun _ => .outside⟩)

variable {s s' : State (Multiset ℕ)} {lab : Label ι}

/-! ## The CPUs -/

/-- The CPU has no process, and is between its two calls. -/
def Cpu.loops (u : Cpu) : Prop :=
  u.proc = none ∧ (u.pc = .top ∨ u.pc = .getFirst ∨ u.pc = .slot)

theorem CpuMove.loops {c : ℕ} (hm : CpuMove cfg stub s c lab s') (h : (s.cpu c).loops) :
    (s'.cpu c).loops ∧
      (lab.schedCall = none ∧ (s.cpu c).pc = .top ∧ (s'.cpu c).pc = .getFirst ∨
        lab.schedCall = some (.cpu c, .getProc) ∧ (s.cpu c).pc = .getFirst ∧
          (s'.cpu c).pc = .slot) := by
  obtain ⟨hproc, hpc⟩ := h
  cases hm with
  | noProc htop =>
    simp [Cpu.loops, Label.schedCall, htop]
  | got hgets _ hget =>
    obtain ⟨rfl, rfl⟩ := hget
    have hfirst : (s.cpu c).pc = .getFirst := by
      rcases hpc with h | h | h
      · rw [h] at hgets
        cases hgets
      · exact h
      · rw [h] at hgets
        cases hgets
    simp [Cpu.loops, Label.schedCall, hfirst, State.setCpu]
  | finished _ h | expired _ h | running _ h | dispatch _ h | exec _ h => cases hproc.symm.trans h
  | exit h | idle h =>
    rcases hpc with h' | h' | h' <;> cases h.symm.trans h'

/-- No CPU ever has a process, and none leaves its loop. -/
theorem loops_of_reachable (hs : (system cfg stub).Reachable s) {c : ℕ} (hc : c < cfg.numCpus) :
    (s.cpu c).loops := by
  refine hs.invariant (I := fun s => (s.cpu c).loops) ?_ ?_
  · rintro s rfl
    exact ⟨rfl, .inl rfl⟩
  · intro s lab s' h hst
    rcases step_cpu hc hst with ⟨-, hcpu⟩ | ⟨-, hm | ⟨a, pc, hcall, hcpu⟩⟩
    · rwa [hcpu]
    · exact (hm.loops h).1
    · rw [hcpu]
      rcases CpuPc.call_eq hcall with ⟨-, -, rfl⟩ | ⟨-, hpc, -⟩
      · exact ⟨h.1, .inl rfl⟩
      · rcases h.2 with h' | h' | h' <;> cases hpc.symm.trans h'

/-- CPU `c` returns from `get_proc`. -/
def Label.gotBy (c : ℕ) : Label ι → Bool
  | .got c' _ => c' = c
  | _ => false

theorem ofCpu_of_gotBy {c : ℕ} (h : lab.gotBy c = true) : lab.ofCpu cfg c = true := by
  cases lab <;> first | exact h | cases h

theorem loops_inDetach {c : ℕ} (hs : (system cfg stub).Reachable s) (hc : c < cfg.numCpus) :
    (s.timer.device (cfg.device c)).pc.inDetach = false := by
  refine Bool.eq_false_iff.mpr fun hin => ?_
  have hstop : (s.cpu c).pc = .stopped := ((threads_of_reachable hs).cpu c hc).ended hin
  rcases (loops_of_reachable hs hc).2 with h | h | h <;> cases hstop.symm.trans h

theorem gotBy_iff {c : ℕ} : lab.gotBy c = true ↔ lab.schedCall = some (.cpu c, .getProc) := by
  cases lab <;> simp [Label.gotBy, Label.schedCall]

/-- At its call of `next_slot` a CPU makes this call and nothing else. -/
theorem step_nextSlot {c : ℕ} (hc : c < cfg.numCpus) (hst : Step cfg stub s lab s')
    (hpc : (s.cpu c).pc = .slot) (hlab : lab.ofCpu cfg c = true) :
    lab = .timer (.nextSlot (cfg.device c)) ∧ (s'.cpu c).pc = .top ∧
      Timer.step cfg.devices s.timer (.nextSlot (cfg.device c)) = some s'.timer := by
  cases hst with
  | @cpu _ c' r q lab hc' hw hget hm =>
    have hmove := cpuRoutine_move hget hm
    rw [hmove.ofCpu c, decide_eq_true_eq] at hlab
    subst hlab
    cases hmove with
    | got hgets => rw [hpc] at hgets; cases hgets
    | noProc h | finished h | expired h | running h | exit h | idle h | dispatch h | exec h =>
      cases hpc.symm.trans h
  | @cpuCall c' a pc t hc' hcall hstep =>
    rcases CpuPc.call_eq hcall with ⟨rfl, -, rfl⟩ | ⟨rfl, h, -⟩
    · obtain rfl : c' = c := device_inj hc' hc (of_decide_eq_true hlab)
      exact ⟨rfl, by simp [State.setCpu], hstep⟩
    · obtain rfl : c' = c := device_inj hc' hc (of_decide_eq_true hlab)
      cases hpc.symm.trans h
  | loader hw hm => cases ldRoutine_move hm <;> cases hlab
  | loaderCall hcall hstep =>
    have hne := (device_ne_loader hc).symm
    rcases LoaderPc.call_eq hcall with ⟨rfl, -⟩ | ⟨rfl, -⟩ <;>
      exact absurd (of_decide_eq_true hlab) hne
  | @timer a t ha hstep =>
    cases a with
    | nextSlot d | detachEvent d => cases ha
    | _ => cases hlab

/-- A CPU calls `get_proc` once in each slot. -/
theorem gots_eq {tr : List (Label ι)} {c k : ℕ} (hc : c < cfg.numCpus)
    (hr : ((system cfg stub).counted State.ticks).Run (start stub, 0) tr (s, k)) :
    tr.countP (Label.gotBy c) =
      s.slotOf k (cfg.device c) + if (s.cpu c).pc = .slot then 1 else 0 := by
  refine hr.trace_invariant (I := fun tr t => tr.countP (Label.gotBy c) =
    t.1.slotOf t.2 (cfg.device c) + if (t.1.cpu c).pc = .slot then 1 else 0) ?_ ?_
  · have hnot : ¬ (Timer.startTimer.toLocal (cfg.device c)).beforeTick :=
      Timer.not_beforeTick (.init rfl) (device_lt cfg c) rfl
    simp [State.slotOf, start, Timer.Local.ahead, hnot]
  · rintro tr ⟨s, k⟩ lab ⟨s', k'⟩ hrun ih ⟨hst, hk⟩
    dsimp only at ih hst hk ⊢
    have hs : (system cfg stub).Reachable s := ⟨_, tr, rfl, hrun.uncount⟩
    have ht := threads_of_reachable hs
    have hslot : ¬ lab.calls (cfg.device c) →
        s'.slotOf k' (cfg.device c) = s.slotOf k (cfg.device c) := by
      intro hcall
      rw [hk]
      exact (slotOf_step ht hst (device_lt cfg c) hcall).2 (loops_inDetach hs hc)
    rw [List.countP_append, List.countP_singleton, ih]
    rcases step_cpu hc hst with ⟨hlab, hcpu⟩ | ⟨hlab, hm | ⟨a, pc, hcall, -⟩⟩
    · have hgot : lab.gotBy c ≠ true := fun h =>
        absurd (hlab.symm.trans (ofCpu_of_gotBy h)) Bool.false_ne_true
      rw [hslot (not_calls_of_other hlab), hcpu, if_neg hgot, Nat.add_zero]
    · rw [hslot (not_calls_of_none hm.timerAct _)]
      rcases (hm.loops (loops_of_reachable hs hc)).2 with ⟨hcall, hpc, hpc'⟩ | ⟨hcall, hpc, hpc'⟩
      · have hgot : lab.gotBy c ≠ true := by
          rw [Ne, gotBy_iff, hcall]
          exact Option.some_ne_none _ ∘ Eq.symm
        simp [hgot, hpc, hpc']
      · simp [gotBy_iff.mpr hcall, hpc, hpc']
    · have hpc : (s.cpu c).pc = .slot := by
        rcases CpuPc.call_eq hcall with ⟨-, hpc, -⟩ | ⟨-, hpc, -⟩
        · exact hpc
        · rcases (loops_of_reachable hs hc).2 with h | h | h <;> cases hpc.symm.trans h
      obtain ⟨rfl, hpc', hstep⟩ := step_nextSlot hc hst hpc hlab
      obtain ⟨hbefore, hafter⟩ := slotOf_nextSlot s' (k := k) ht hstep rfl
      rw [show k' = k from hk, hbefore, hafter, hpc, hpc']
      rfl

/-- No instruction is executed. -/
theorem not_run {tr : List (Label ι)} (hr : (system cfg stub).Run (start stub) tr s) {c p : ℕ}
    {ins : Option ι} : Label.run c p ins ∉ tr := by
  refine hr.trace_invariant (I := fun tr _ => Label.run c p ins ∉ tr) (by simp) ?_
  rintro tr s lab s' hrun ih hst
  rw [List.mem_append, List.mem_singleton, not_or]
  refine ⟨ih, ?_⟩
  rintro rfl
  have hs : (system cfg stub).Reachable s := ⟨_, tr, rfl, hrun⟩
  obtain ⟨hc, hheld, -⟩ := step_run hst (threads_of_reachable hs)
  cases (loops_of_reachable hs hc).1.symm.trans hheld.1

/-! ## The calls of the scheduler -/

/-- A call of `get_proc` returns. -/
def Label.gots : Label ι → Bool
  | .got _ _ => true
  | _ => false

theorem sum_gotBy_le (n : ℕ) (tr : List (Label ι)) :
    ∑ c ∈ Finset.range n, tr.countP (Label.gotBy c) ≤ tr.countP Label.gots := by
  induction tr with
  | nil => simp
  | cons lab tr ih =>
    simp only [List.countP_cons, Finset.sum_add_distrib]
    refine Nat.add_le_add ih ?_
    cases lab with
    | got c r =>
      simp only [Label.gotBy, Label.gots, decide_eq_true_eq, if_true, Finset.sum_ite_eq]
      split
      · exact le_rfl
      · exact Nat.zero_le 1
    | _ => simp [Label.gotBy, Label.gots]

theorem gots_iff : lab.gots = true ↔ ∃ t, lab.schedCall = some (t, .getProc) := by
  cases lab <;> simp [Label.gots, Label.schedCall]

/-- The loader stays at its call of `add_proc` until this returns. -/
theorem loader_stays (hst : Step cfg stub s lab s')
    (hlab : lab.schedCall ≠ some (.loader, .addProc)) (hpc : s.loader.pc = .addProc) :
    s'.loader.pc = .addProc := by
  cases hst with
  | cpu hc hw hget hm => rw [(cpuRoutine_move hget hm).frame.2.1, hpc]
  | loader hw hm =>
    cases ldRoutine_move hm with
    | addProc => exact absurd rfl hlab
    | load h | allLoaded h | early h | onTime h | setDone h => cases hpc.symm.trans h
  | loaderCall hcall ht =>
    rw [hpc] at hcall
    cases hcall
  | cpuCall | timer => exact hpc

/-- Where the next step of the loader is the call of `add_proc`. -/
theorem addProc_of_step (hst : Step cfg stub s lab s')
    (hlab : lab.schedCall = some (.loader, .addProc)) : s.loader.pc = .addProc := by
  rcases step_add hst with ⟨-, -, hpc⟩ | ⟨hnot, -⟩
  · exact hpc
  · cases lab with
    | add i => exact absurd rfl (hnot i)
    | _ => cases hlab

/-- The tick does not find the loader at `add_proc`. -/
theorem not_addProc_of_tick (ht : Threads cfg s) (htick : s.ticks lab = true) :
    s.loader.pc ≠ .addProc := by
  intro hpc
  cases lab with
  | timer a =>
    obtain ⟨-, hinc⟩ := Timer.ticks_iff.mp htick
    have hw : (s.timer.device Config.loaderDevice).pc = .working :=
      ht.loader.eq_working (by rw [hpc]; simp) (by rw [hpc]; simp)
    have hb := Timer.beforeTick_of_incTime ht.timer hinc loaderDevice_lt (by rw [hw]; rfl)
    exact Timer.not_beforeTick ht.timer loaderDevice_lt hw hb
  | _ => cases htick

/-- The programs that a run has added are counted by the loader. -/
theorem adds_eq {tr : List (Label ι)} (hr : (system cfg stub).Run (start stub) tr s) :
    tr.countP Label.adds = s.loader.i := by
  refine hr.trace_invariant (I := fun tr s => tr.countP Label.adds = s.loader.i) rfl ?_
  rintro tr s lab s' - ih hst
  rw [List.countP_append, List.countP_singleton, ih]
  rcases step_add hst with ⟨rfl, hi, -⟩ | ⟨hlab, hi⟩
  · rw [hi]
    rfl
  · rw [hi, if_neg fun h => ?_, Nat.add_zero]
    cases lab with
    | add i => exact hlab i rfl
    | _ => cases h

/-! ## The lock and its callers -/

abbrev Joined := (State (Multiset ℕ) × ℕ) × SchedLock.State Thread

variable {x y : Joined} {j : Joint (Label ι) (Thread × SchedLock.Act)}
  {tr : List (Joint (Label ι) (Thread × SchedLock.Act))}

/-- What holds between the threads and the lock, with the steps that they have taken. -/
structure Linked (tr : List (Label ι)) (x : Joined) : Prop where
  owned : SchedLock.Owned x.2
  once : SchedLock.GetOnce x.2 (tr.countP Label.gots)
  link : (x.2.pos .loader).fn = some .addProc → x.1.1.loader.pc = .addProc

theorem linked_startLock : Linked ([] : List (Label ι)) startLock where
  owned t h := by cases h
  once := .inl ⟨rfl, fun _ => rfl⟩
  link h := by cases h

/-- A step of the callers alone, of the threads at the lock alone, or the return of a
call. -/
theorem withLock_cases (h : (withLock cfg build).step x j y) :
    (∃ lab, j = .left lab ∧ lab.schedCall = none ∧ Step cfg stub x.1.1 lab y.1.1 ∧
      y.2 = x.2) ∨
    (∃ t act, j = .right (t, act) ∧ (∀ f, act ≠ .ret f) ∧ y.1 = x.1 ∧
      (SchedLock.threads Thread build).step x.2 (t, act) y.2 ∧
      ∀ f, act = .call f → ∃ lab s', Step cfg stub x.1.1 lab s' ∧ lab.schedCall = some (t, f)) ∨
    ∃ lab t f, j = .both lab (t, .ret f) ∧ lab.schedCall = some (t, f) ∧
      Step cfg stub x.1.1 lab y.1.1 ∧
      (SchedLock.threads Thread build).step x.2 (t, .ret f) y.2 := by
  obtain ⟨hok, hst⟩ := h
  cases j with
  | left lab => exact .inl ⟨lab, rfl, hok, hst.1.1, hst.2⟩
  | right b =>
    obtain ⟨t, act⟩ := b
    refine .inr (.inl ⟨t, act, rfl, ?_, hst.1, hst.2, ?_⟩)
    · rintro f rfl
      exact hok
    · rintro f rfl
      exact hok
  | both lab b =>
    obtain ⟨t, act⟩ := b
    cases act with
    | ret f => exact .inr (.inr ⟨lab, t, f, rfl, hok, hst.1.1, hst.2⟩)
    | _ => exact hok.elim

theorem Linked.step {tr : List (Label ι)} (h : Linked tr x)
    (hst : (withLock cfg .mlq).step x j y) : Linked (tr ++ j.fst?.toList) y := by
  rcases withLock_cases hst with ⟨lab, rfl, hlab, hstep, hlock⟩ |
    ⟨t, act, rfl, hret, hos, hstep, hcall⟩ | ⟨lab, t, f, rfl, hlab, hstep, hlock⟩
  · have hgot : lab.gots ≠ true := by
      rw [Ne, gots_iff, hlab]
      simp
    refine ⟨hlock ▸ h.owned, ?_, fun hfn => ?_⟩
    · rw [hlock, List.countP_append, show (Joint.left lab).fst?.toList = [lab] from rfl,
        List.countP_singleton, if_neg hgot]
      exact h.once
    · rw [hlock] at hfn
      exact loader_stays hstep (by rw [hlab]; nofun) (h.link hfn)
  · have hm := SchedLock.step_moved hstep
    refine ⟨h.owned.step hstep, ?_, fun hfn => ?_⟩
    · have honce := h.once.step h.owned hstep
      rw [if_neg (hret .getProc)] at honce
      exact (List.append_nil tr).symm ▸ honce
    · rw [hos]
      rcases eq_or_ne t .loader with rfl | hne
      · by_cases hisCall : ∃ f, act = .call f
        · obtain ⟨f, rfl⟩ := hisCall
          rw [hm.call f rfl] at hfn
          cases hfn
          obtain ⟨lab, s', hs', hlab⟩ := hcall _ rfl
          exact addProc_of_step hs' hlab
        · rw [hm.stays fun f => ⟨fun hf => hisCall ⟨f, hf⟩, hret f⟩] at hfn
          exact h.link hfn
      · rw [hm.other _ hne.symm] at hfn
        exact h.link hfn
  · have hm := SchedLock.step_moved hlock
    refine ⟨h.owned.step hlock, ?_, fun hfn => ?_⟩
    · have honce := h.once.step h.owned hlock
      rw [show (Joint.both lab (t, SchedLock.Act.ret f)).fst?.toList = [lab] from rfl,
        List.countP_append, List.countP_singleton]
      have hgot : lab.gots = true ↔ SchedLock.Act.ret f = .ret .getProc := by
        rw [gots_iff, hlab]
        simp
      rwa [if_congr hgot rfl rfl]
    · rcases eq_or_ne t .loader with rfl | hne
      · rw [(hm.ret f rfl).2] at hfn
        cases hfn
      · rw [hm.other _ hne.symm] at hfn
        exact loader_stays hstep (by rw [hlab]; simp [hne]) (h.link hfn)

theorem linked_of_run (hr : (withLock cfg .mlq).Run startLock tr x) :
    Linked (tr.filterMap Joint.fst?) x := by
  refine hr.trace_invariant (I := fun tr x => Linked (tr.filterMap Joint.fst?) x)
    linked_startLock ?_
  intro tr x j y _ ih hst
  have hone : [j].filterMap Joint.fst? = j.fst?.toList := by
    cases j <;> rfl
  rw [List.filterMap_append, hone]
  exact ih.step hst

/-- Every CPU has returned from `get_proc` as often as the clock has ticked, and all
together once at most. -/
theorem ticks_le (hr : (withLock cfg .mlq).Run startLock tr x) :
    cfg.numCpus * x.1.2 ≤ (tr.filterMap Joint.fst?).countP Label.gots ∧
      (tr.filterMap Joint.fst?).countP Label.gots ≤ 1 := by
  refine ⟨?_, (linked_of_run hr).once.le_one⟩
  calc cfg.numCpus * x.1.2
      = ∑ c ∈ Finset.range cfg.numCpus, x.1.2 := by
        rw [Finset.sum_const, Finset.card_range, smul_eq_mul]
    _ ≤ ∑ c ∈ Finset.range cfg.numCpus, (tr.filterMap Joint.fst?).countP (Label.gotBy c) := by
        refine Finset.sum_le_sum fun c hc => ?_
        rw [gots_eq (Finset.mem_range.mp hc) hr.left]
        exact (slotOf_bounds _ _ _).1.trans (Nat.le_add_right _ _)
    _ ≤ _ := sum_gotBy_le _ _

/-- Behind the first tick the lock is lost, and the loader is not behind it. -/
def LateLoader (x : Joined) : Prop :=
  x.1.2 = 0 ∨ x.1.1.loader.i ≤ 1 ∧ (x.2.pos .loader).past .addProc = false

/-- Behind the lost lock the loader adds nothing. -/
theorem lateLoader_lost (hlost : SchedLock.Lost x.2) (hst : (withLock cfg .mlq).step x j y)
    (hpast : (x.2.pos .loader).past .addProc = false) :
    y.1.1.loader.i = x.1.1.loader.i ∧ (y.2.pos .loader).past .addProc = false := by
  have hadd : ∀ lab, Step cfg stub x.1.1 lab y.1.1 →
      lab.schedCall ≠ some (.loader, .addProc) → y.1.1.loader.i = x.1.1.loader.i := by
    intro lab hstep hlab
    rcases step_add hstep with ⟨rfl, -⟩ | ⟨-, hi⟩
    · exact absurd rfl hlab
    · exact hi
  have hmoved : ∀ t act, (SchedLock.threads Thread .mlq).step x.2 (t, act) y.2 →
      (y.2.pos .loader).past .addProc = false := by
    intro t act hstep
    have hm := SchedLock.step_moved hstep
    rcases eq_or_ne t .loader with rfl | hne
    · refine Bool.eq_false_iff.mpr fun h => Bool.eq_false_iff.mp hpast (hm.past _ ?_ h)
      rintro rfl
      exact hlost.not_acquire hstep
    · rwa [hm.other _ hne.symm]
  rcases withLock_cases hst with ⟨lab, -, hlab, hstep, hlock⟩ |
    ⟨t, act, -, -, hos, hstep, -⟩ | ⟨lab, t, f, -, hlab, hstep, hlock⟩
  · exact ⟨hadd lab hstep (by rw [hlab]; nofun), by rwa [hlock]⟩
  · exact ⟨by rw [hos], hmoved t act hstep⟩
  · refine ⟨hadd lab hstep fun h => ?_, hmoved t _ hlock⟩
    cases hlab.symm.trans h
    have hpos : x.2.pos .loader = .ret .addProc := ((SchedLock.step_moved hlock).ret _ rfl).1
    rw [hpos] at hpast
    cases hpast

/-- The tick finds the loader in none of the functions of the scheduler. -/
theorem lateLoader_tick (hr : (withLock cfg .mlq).Run startLock tr x) {lab : Label ι}
    (hst : (withLock cfg .mlq).step x j y) (hj : j.fst? = some lab)
    (htick : x.1.1.ticks lab = true) (hzero : x.1.2 = 0) : LateLoader y := by
  have hnone : lab.schedCall = none := by
    cases lab <;> first | rfl | cases htick
  have hx : (system cfg stub).Reachable x.1.1 := ⟨_, _, rfl, hr.left.uncount⟩
  rcases withLock_cases hst with ⟨lab', rfl, -, hstep, hlock⟩ | ⟨t, act, rfl, -⟩ |
    ⟨lab', t, f, rfl, hlab', -⟩
  · cases hj
    refine .inr ⟨?_, ?_⟩
    · have hle := adds_le (Q := stub) (.init rfl) hr.left
      rw [adds_eq hr.left.uncount, hzero] at hle
      rcases step_add hstep with ⟨rfl, -⟩ | ⟨-, hi⟩
      · cases hnone
      · exact hi.trans_le hle
    · rw [hlock]
      refine Bool.eq_false_iff.mpr fun hpast => ?_
      exact not_addProc_of_tick (threads_of_reachable hx) htick
        ((linked_of_run hr).link (SchedLock.Pos.fn_of_past hpast))
  · cases hj
  · cases hj
    cases hnone.symm.trans hlab'

theorem lateLoader_of_run (hcpus : 0 < cfg.numCpus)
    (hr : (withLock cfg .mlq).Run startLock tr x) : LateLoader x := by
  refine hr.trace_invariant (I := fun _ x => LateLoader x) (.inl rfl) ?_
  intro tr x j y hrun ih hst
  rcases Nat.eq_zero_or_pos x.1.2 with hzero | hpos
  · rcases Lts.product_left hst with ⟨-, heq⟩ | ⟨lab, hj, -, hk⟩
    · exact .inl (by rw [heq, hzero])
    · cases htick : x.1.1.ticks lab with
      | false => exact .inl (by rw [hk, hzero, htick]; rfl)
      | true => exact lateLoader_tick hrun hst hj htick hzero
  · obtain ⟨hi, hpast⟩ := ih.resolve_left hpos.ne'
    have hgots : 0 < (tr.filterMap Joint.fst?).countP Label.gots :=
      (Nat.mul_pos hcpus hpos).trans_le (ticks_le hrun).1
    obtain ⟨hi', hpast'⟩ := lateLoader_lost ((linked_of_run hrun).once.lost hgots) hst hpast
    exact .inr ⟨hi'.trans_le hi, hpast'⟩

/-- At most one program is added. -/
theorem added_le_one (hcpus : 0 < cfg.numCpus) (hr : (withLock cfg .mlq).Run startLock tr x) :
    x.1.1.loader.i ≤ 1 := by
  rcases lateLoader_of_run hcpus hr with hzero | ⟨hi, -⟩
  · have hle := adds_le (Q := stub) (.init rfl) hr.left
    rwa [adds_eq hr.left.uncount, hzero] at hle
  · exact hi

/-- The program as it stands, with any configuration and in every interleaving: no
instruction is executed, and no CPU leaves its loop. With the multi-level queue and a
CPU, moreover, `get_proc` returns once at most, the clock does not pass the second slot,
with two CPUs not even the first, and no program but the first is added, so that with
two programs the loader does not end either. -/
theorem stalls (hr : (withLock cfg build).Run startLock tr x) :
    (∀ c p ins, Label.run c p ins ∉ tr.filterMap Joint.fst?) ∧
    (∀ c < cfg.numCpus, (x.1.1.cpu c).pc ≠ .leave ∧ (x.1.1.cpu c).pc ≠ .stopped) ∧
    (build = .mlq → 0 < cfg.numCpus → (tr.filterMap Joint.fst?).countP Label.gots ≤ 1 ∧
      cfg.numCpus * x.1.2 ≤ 1 ∧
      (∀ i, Label.add i ∈ tr.filterMap Joint.fst? → i = 0) ∧
      (x.1.1.done = true → cfg.programs.length ≤ 1)) := by
  have hos : (system cfg stub).Run (start stub) (tr.filterMap Joint.fst?) x.1.1 :=
    hr.left.uncount
  have hs : (system cfg stub).Reachable x.1.1 := ⟨_, _, rfl, hos⟩
  refine ⟨fun c p ins => not_run hos, fun c hc => ?_, ?_⟩
  · rcases (loops_of_reachable hs hc).2 with h | h | h <;> rw [h] <;> exact ⟨nofun, nofun⟩
  · rintro rfl hcpus
    have hone : x.1.1.loader.i ≤ 1 := added_le_one hcpus hr
    obtain ⟨hticks, hgots⟩ := ticks_le hr
    refine ⟨hgots, hticks.trans hgots, fun i hi => ?_, fun hdone => ?_⟩
    · exact Nat.lt_one_iff.mp (((mem_add_iff hos i).mp hi).trans_le hone)
    · have hcounter := (threads_of_reachable hs).counter
      rw [← hcounter.finished (.inr (hcounter.done_iff.mp hdone))]
      exact hone

/-- A CPU calls `get_proc` and comes back with `NULL`. -/
def firstGet : List (Joint (Label ℕ) (Thread × SchedLock.Act)) :=
  [.left (.cpu 0), .right (.cpu 0, .call .getProc), .right (.cpu 0, .acquire .getProc),
    .right (.cpu 0, .body .getProc), .both (.got 0 none) (.cpu 0, .ret .getProc)]

theorem run_firstGet :
    ∃ x, (withLock oneInstruction .mlq).Run startLock firstGet x := by
  have hcpu : 0 < oneInstruction.numCpus := Nat.one_pos
  let u : State (Multiset ℕ) := (start stub).setCpu 0 ⟨.getFirst, none, 0⟩
  let v : State (Multiset ℕ) := { u.setCpu 0 ⟨.slot, none, 0⟩ with queue := 0 }
  have hfirst : Step oneInstruction stub (start stub) (.cpu 0) u :=
    .cpu (c := 0) (r := none) (q := 0) hcpu rfl (fun h => by cases h) rfl
  have hget : Step oneInstruction stub u (.got 0 none) v :=
    .cpu (c := 0) (r := none) (q := 0) hcpu rfl (fun _ => ⟨rfl, rfl⟩) rfl
  let l : SchedLock.State Thread := startLock.2
  let l₁ := l.move (.cpu 0) (.lock .getProc)
  let l₂ : SchedLock.State Thread :=
    { l₁.move (.cpu 0) (.body .getProc) with queueLock := some (.cpu 0) }
  let l₃ := l₂.move (.cpu 0) (.ret .getProc)
  refine ⟨((v, 0), l₃.move (.cpu 0) .outside), ?_⟩
  refine Lts.Run.cons (t := ((u, 0), l)) ⟨rfl, ⟨hfirst, rfl⟩, rfl⟩ ?_
  refine Lts.Run.cons (t := ((u, 0), l₁)) ⟨⟨_, v, hget, rfl⟩, rfl, rfl, rfl⟩ ?_
  refine Lts.Run.cons (t := ((u, 0), l₂)) ⟨trivial, rfl, rfl, rfl, rfl⟩ ?_
  refine Lts.Run.cons (t := ((u, 0), l₃)) ⟨trivial, rfl, rfl, rfl⟩ ?_
  exact Lts.Run.cons (t := ((v, 0), l₃.move (.cpu 0) .outside))
    ⟨rfl, ⟨hget, rfl⟩, rfl, rfl⟩ .nil

/-- A CPU calls `get_proc` and comes back, the only time, and the clock does not pass the
second slot. -/
theorem stalls_firstGet :
    ∃ x : Joined, (withLock oneInstruction .mlq).Run startLock firstGet x ∧
      (x.1.1.cpu 0).pc ≠ .leave ∧ (firstGet.filterMap Joint.fst?).countP Label.gots ≤ 1 ∧
      1 * x.1.2 ≤ 1 := by
  obtain ⟨x, hr⟩ := run_firstGet
  obtain ⟨-, hloop, hstall⟩ := stalls hr
  obtain ⟨hgots, hticks, -⟩ := hstall rfl Nat.one_pos
  exact ⟨x, hr, (hloop 0 Nat.one_pos).1, hgots, hticks⟩

end Os

end SimpleOs
