import SimpleOs.IdleCpu
import SimpleOs.LoadSchedule

/-!
# One instruction per slot

A thread that has used its slot is at its call of `next_slot`, or inside this call
before the tick. From there it does nothing else until the clock has moved on; so
what a thread does once between two of its calls it does once in a slot.

Results:
1. `SlotUsed.step`: a thread that has used its slot does nothing more before the tick.
2. `slot_rate`: from any reachable state on, while the clock ticks `k` times, a CPU
   executes at most `k + 1` instructions, and so does a process, also one that moves
   between CPUs; and the loader adds at most `k + 1` programs.
-/

namespace SimpleOs

namespace Os

open Custody (Loc)

variable {ι π : Type*} {cfg : Config ι} {Q : ReadyQueue π} {s s' : State π} {lab : Label ι}

/-! ## A used slot -/

/-- A thread has used its slot: it is at its call of `next_slot`, or in this call before
the tick. -/
def SlotUsed (atCall : Prop) (t : Timer.State) (d : ℕ) : Prop :=
  atCall ∨ (t.toLocal d).beforeTick

theorem ahead_pos {l : Timer.Local} : 0 < l.ahead ↔ l.beforeTick := by
  unfold Timer.Local.ahead
  split
  · next h => exact iff_of_true Nat.one_pos h
  · next h => exact iff_of_false (lt_irrefl 0) h

/-- Before the tick a call of `next_slot` does not return. -/
theorem beforeTick_step {d : ℕ} (ht : Threads cfg s) (hst : Step cfg Q s lab s')
    (hd : d < cfg.devices) (htick : s.ticks lab = false) (hcall : ¬ lab.calls d)
    (hb : (s.timer.toLocal d).beforeTick) : (s'.timer.toLocal d).beforeTick := by
  obtain ⟨-, hslot⟩ := slotOf_step (k := 0) ht hst hd hcall
  have hnext := Timer.inNextSlot_of_beforeTick ht.timer hd hb
  have hin : (s.timer.device d).pc.inDetach = false := by
    cases hpc : (s.timer.device d).pc <;> rw [hpc] at hnext <;> first | rfl | cases hnext
  have hahead := hslot hin
  rw [htick, if_neg Bool.false_ne_true, Nat.add_zero, State.slotOf, State.slotOf, Nat.zero_add,
    Nat.zero_add] at hahead
  rw [← ahead_pos, hahead]
  exact ahead_pos.mpr hb

/-- A thread inside a call of the timer makes no call. -/
theorem not_calls_of_beforeTick {d : ℕ} (ht : Threads cfg s) (hst : Step cfg Q s lab s')
    (hd : d < cfg.devices) (hb : (s.timer.toLocal d).beforeTick) : ¬ lab.calls d := by
  have hnot : ∀ a, a = .nextSlot d ∨ a = .detachEvent d →
      Timer.step cfg.devices s.timer a ≠ some s'.timer := by
    intro a ha hstep
    exact Timer.not_beforeTick ht.timer hd (timer_call ha hstep).2.1 hb
  rcases step_timer hst with ⟨hnone, -⟩ | ⟨a, rfl, hstep⟩
  · exact not_calls_of_none hnone d
  · rintro (h | h) <;> cases h
    · exact hnot _ (.inl rfl) hstep
    · exact hnot _ (.inr rfl) hstep

/-- CPU `c` has used its slot. -/
def State.cpuUsed (cfg : Config ι) (s : State π) (c : ℕ) : Prop :=
  SlotUsed ((s.cpu c).pc = .slot) s.timer (cfg.device c)

/-- The loader has used its slot. -/
def State.loaderUsed (s : State π) : Prop :=
  SlotUsed (s.loader.pc = .slot) s.timer Config.loaderDevice

/-- The device of a CPU that has used its slot is not at work, unless for the call. -/
theorem cpuUsed_idle {c : ℕ} (ht : Threads cfg s) (hc : c < cfg.numCpus)
    (hused : s.cpuUsed cfg c) :
    (s.cpu c).pc = .slot ∨ (s.cpu c).pc = .top ∧
      (s.timer.device (cfg.device c)).pc ≠ .working := by
  refine hused.imp_right fun hb => ?_
  have hnext := Timer.inNextSlot_of_beforeTick ht.timer (device_lt cfg c) hb
  have hcpu := ht.cpu c hc
  rw [CpuDevice, DeviceOf, if_pos hnext] at hcpu
  exact ⟨hcpu, fun hw => Timer.not_beforeTick ht.timer (device_lt cfg c) hw hb⟩

theorem not_calls_of_other {c : ℕ} (h : lab.ofCpu cfg c = false) : ¬ lab.calls (cfg.device c) := by
  rintro (rfl | rfl) <;> exact absurd rfl (of_decide_eq_false h)

/-- After the call of `next_slot` the tick is to come. -/
theorem beforeTick_nextSlot {n d : ℕ} {t t' : Timer.State}
    (hst : Timer.step n t (.nextSlot d) = some t') : (t'.toLocal d).beforeTick :=
  .inl (by simpa [Timer.State.toLocal] using (timer_call (.inl rfl) hst).2.2.2)

/-- A CPU that has used its slot keeps its process, and has used it up to the tick. -/
theorem cpuUsed_step {c : ℕ} (ht : Threads cfg s) (hst : Step cfg Q s lab s')
    (hc : c < cfg.numCpus) (htick : s.ticks lab = false) (hused : s.cpuUsed cfg c) :
    s'.cpuUsed cfg c ∧ ∀ p, s'.holds c p ↔ s.holds c p := by
  have hidle := cpuUsed_idle ht hc hused
  have hother : lab.ofCpu cfg c = false → s'.cpu c = s.cpu c →
      s'.cpuUsed cfg c ∧ ∀ p, s'.holds c p ↔ s.holds c p := by
    intro hlab hcpu
    simp only [State.cpuUsed, State.holds, hcpu]
    exact ⟨hused.imp_right
      (beforeTick_step ht hst (device_lt cfg c) htick (not_calls_of_other hlab)), fun _ => trivial⟩
  rcases step_cpu hc hst with ⟨hlab, hcpu⟩ | ⟨hlab, -⟩
  · exact hother hlab hcpu
  · cases hst with
    | @cpu _ c' r q lab hc' hw hget hm =>
      have hmove := cpuRoutine_move hget hm
      rw [hmove.ofCpu c, decide_eq_true_eq] at hlab
      subst hlab
      have hpc : (s.cpu c').pc = .slot := hidle.resolve_right fun h => h.2 hw
      cases hmove with
      | got hgets => rw [hpc] at hgets; cases hgets
      | noProc h | finished h | expired h | running h | exit h | idle h | dispatch h | exec h =>
        cases hpc.symm.trans h
    | @cpuCall c' a pc t hc' hcall hstep =>
      rcases CpuPc.call_eq hcall with ⟨rfl, hpc, rfl⟩ | ⟨rfl, hpc, rfl⟩
      · obtain rfl : c' = c := device_inj hc' hc (of_decide_eq_true hlab)
        refine ⟨.inr (beforeTick_nextSlot hstep), fun p => ?_⟩
        exact holds_frame (u := { s.cpu c' with pc := .top })
          (fun p => by simp [State.holds, Cpu.holds, hpc]) c' p
      · obtain rfl : c' = c := device_inj hc' hc (of_decide_eq_true hlab)
        rcases hidle with h | ⟨h, -⟩ <;> cases hpc.symm.trans h
    | loader hw hm => cases ldRoutine_move hm <;> cases hlab
    | loaderCall hcall hstep =>
      have hne := (device_ne_loader hc).symm
      rcases LoaderPc.call_eq hcall with ⟨rfl, -⟩ | ⟨rfl, -⟩ <;>
        exact absurd (of_decide_eq_true hlab) hne
    | @timer a t ha hstep =>
      cases a with
      | nextSlot d | detachEvent d => cases ha
      | _ => cases hlab

/-- The loader has used its slot up to the tick. -/
theorem loaderUsed_step (ht : Threads cfg s) (hst : Step cfg Q s lab s')
    (htick : s.ticks lab = false) (hused : s.loaderUsed) : s'.loaderUsed := by
  rcases hused with hpc | hb
  · cases hst with
    | cpu hc hw hget hm => exact .inl (by rw [(cpuRoutine_move hget hm).frame.2.1]; exact hpc)
    | loader hw hm =>
      cases ldRoutine_move hm with
      | load h | allLoaded h | early h | onTime h | addProc h | setDone h => cases hpc.symm.trans h
    | loaderCall hcall hstep =>
      rcases LoaderPc.call_eq hcall with ⟨rfl, -⟩ | ⟨rfl, h, -⟩
      · exact .inr (beforeTick_nextSlot hstep)
      · cases hpc.symm.trans h
    | cpuCall | timer => exact .inl hpc
  · exact .inr (beforeTick_step ht hst loaderDevice_lt htick
      (not_calls_of_beforeTick ht hst loaderDevice_lt hb) hb)

/-! ## What is done in a slot -/

/-- CPU `c` executes an instruction. -/
def Label.runsOn (c : ℕ) : Label ι → Bool
  | .run c' _ _ => c' = c
  | _ => false

/-- An instruction of process `p` is executed. -/
def Label.runs (p : ℕ) : Label ι → Bool
  | .run _ q _ => q = p
  | _ => false

/-- The loader adds a program. -/
def Label.adds : Label ι → Bool
  | .add _ => true
  | _ => false

/-- A CPU executes an instruction where it has not used its slot, and has used it then. -/
theorem step_run {c p : ℕ} {ins : Option ι} (hst : Step cfg Q s (.run c p ins) s')
    (ht : Threads cfg s) : c < cfg.numCpus ∧ s.holds c p ∧ s'.holds c p ∧
      ¬ s.cpuUsed cfg c ∧ s'.cpuUsed cfg c := by
  cases hst with
  | cpu hc hw hget hm =>
    cases cpuRoutine_move hget hm with
    | exec hpc hproc =>
      refine ⟨hc, ⟨hproc, by rw [hpc]; nofun, by rw [hpc]; nofun⟩, ?_, fun hused => ?_, .inl ?_⟩
      · simp [State.holds, Cpu.holds, State.setCpu]
      · rcases cpuUsed_idle ht hc hused with h | ⟨h, -⟩ <;> cases hpc.symm.trans h
      · simp [State.setCpu]
  | loader hw hm => cases ldRoutine_move hm

/-- While the clock ticks `k` times, a CPU executes at most `k + 1` instructions. -/
theorem runsOn_le {t : State π} {tr : List (Label ι)} {c k : ℕ}
    (hs : (system cfg Q).Reachable s)
    (hr : ((system cfg Q).counted State.ticks).Run (s, 0) tr (t, k)) :
    tr.countP (Label.runsOn c) ≤ k + 1 := by
  refine (hr.countP_le_ticks (I := Threads cfg) (fun s => c < cfg.numCpus ∧ s.cpuUsed cfg c)
    (threads_of_reachable hs) fun s lab s' ht hst => ?_).1
  refine ⟨ht.step hst, fun hrun => ?_, fun htick hused => ?_⟩
  · cases lab with
    | run c' p ins =>
      obtain rfl : c' = c := of_decide_eq_true hrun
      obtain ⟨hc, -, -, hnot, hused⟩ := step_run hst ht
      exact ⟨fun h => hnot h.2, hc, hused⟩
    | _ => cases hrun
  · exact ⟨hused.1, (cpuUsed_step ht hst hused.1 htick hused.2).1⟩

/-- No process is held by two CPUs. -/
theorem holds_unique (hs : (system cfg Q).Reachable s) {c c' p : ℕ} (h : s.holds c p)
    (h' : s.holds c' p) : c = c' := by
  obtain ⟨s₀, tr, rfl, hr⟩ := hs
  obtain ⟨-, l, -, hl⟩ := run_located hr
  exact Loc.held.inj (((hl.held c p).mp h).symm.trans ((hl.held c' p).mp h'))

/-- And of a process at most `k + 1` instructions are executed, on whatever CPUs. -/
theorem runs_le {t : State π} {tr : List (Label ι)} {p k : ℕ}
    (hs : (system cfg Q).Reachable s)
    (hr : ((system cfg Q).counted State.ticks).Run (s, 0) tr (t, k)) :
    tr.countP (Label.runs p) ≤ k + 1 := by
  refine (hr.countP_le_ticks (I := (system cfg Q).Reachable)
    (fun s => ∃ c < cfg.numCpus, s.holds c p ∧ s.cpuUsed cfg c) hs
    fun s lab s' hs hst => ?_).1
  have ht := threads_of_reachable hs
  refine ⟨hs.step hst, fun hrun => ?_, fun htick ⟨c, hc, hheld, hused⟩ => ?_⟩
  · cases lab with
    | run c q ins =>
      obtain rfl : q = p := of_decide_eq_true hrun
      obtain ⟨hc, hheld, hheld', hnot, hused⟩ := step_run hst ht
      refine ⟨fun ⟨c', _, h, hused'⟩ => hnot ?_, c, hc, hheld', hused⟩
      rwa [holds_unique hs hheld h]
    | _ => cases hrun
  · obtain ⟨hused', hsame⟩ := cpuUsed_step ht hst hc htick hused
    exact ⟨c, hc, (hsame p).mpr hheld, hused'⟩

/-- The loader adds at most `k + 1` programs. -/
theorem adds_le {t : State π} {tr : List (Label ι)} {k : ℕ} (hs : (system cfg Q).Reachable s)
    (hr : ((system cfg Q).counted State.ticks).Run (s, 0) tr (t, k)) :
    tr.countP Label.adds ≤ k + 1 := by
  refine (hr.countP_le_ticks (I := Threads cfg) State.loaderUsed
    (threads_of_reachable hs) fun s lab s' ht hst => ?_).1
  refine ⟨ht.step hst, fun hadd => ?_, loaderUsed_step ht hst⟩
  cases lab with
  | add i =>
    cases hst with
    | cpu hc hw hget hm => cases cpuRoutine_move hget hm
    | loader hw hm =>
      cases ldRoutine_move hm with
      | addProc hpc =>
        refine ⟨fun hused => ?_, .inl rfl⟩
        rcases hused with h | hb
        · cases hpc.symm.trans h
        · exact Timer.not_beforeTick ht.timer loaderDevice_lt hw hb
  | _ => cases hadd

/-- A call of `run` counts the program counter up to the end of the program. -/
theorem run_pc (text : List ι) {pc : ℕ} (h : pc ≤ text.length) :
    (run text pc).2 = min (pc + 1) text.length := by
  unfold run
  split
  · next hge => rw [le_antisymm h hge, min_eq_right (Nat.le_succ _)]
  · next hlt => exact (min_eq_left (Nat.lt_of_not_le hlt)).symm

/-- The program counter of a process counts its instructions. -/
theorem step_pc (hst : Step cfg Q s lab s') {p : ℕ} (h : s.pc p ≤ cfg.size p) :
    s'.pc p = if lab.runs p then min (s.pc p + 1) (cfg.size p) else s.pc p := by
  cases hst with
  | cpu hc hw hget hm =>
    cases cpuRoutine_move hget hm with
    | @exec q hpc hproc =>
      show Function.update s.pc q _ p = if decide (q = p) = true then _ else _
      rcases eq_or_ne q p with rfl | hne
      · rw [Function.update_self, if_pos (decide_eq_true rfl)]
        exact run_pc _ h
      · rw [Function.update_of_ne hne.symm, if_neg (by simpa using hne)]
    | _ => rfl
  | loader hw hm => cases ldRoutine_move hm <;> rfl
  | cpuCall | loaderCall | timer => rfl

theorem pc_le_runs {t : State π} {tr : List (Label ι)} (hs : (system cfg Q).Reachable s)
    (hr : (system cfg Q).Run s tr t) (p : ℕ) : t.pc p ≤ s.pc p + tr.countP (Label.runs p) := by
  refine hr.trace_invariant (I := fun tr t => t.pc p ≤ s.pc p + tr.countP (Label.runs p)) le_rfl ?_
  intro tr t lab u hr hle hst
  rw [List.countP_append, List.countP_singleton, ← Nat.add_assoc,
    step_pc hst ((loopInv_of_reachable (hs.run hr)).text p)]
  split
  · exact (min_le_left _ _).trans (Nat.add_le_add_right hle 1)
  · exact hle

/-- From any reachable state on, while the clock ticks `k` times: every CPU executes at
most `k + 1` instructions; every process advances by at most `k + 1` instructions, also if
it moves between CPUs; and the loader adds at most `k + 1` programs. -/
theorem slot_rate {t : State π} {tr : List (Label ι)} {k : ℕ} (hs : (system cfg Q).Reachable s)
    (hr : ((system cfg Q).counted State.ticks).Run (s, 0) tr (t, k)) :
    (∀ c, tr.countP (Label.runsOn c) ≤ k + 1) ∧
    (∀ p, tr.countP (Label.runs p) ≤ k + 1 ∧ t.pc p ≤ s.pc p + (k + 1)) ∧
    tr.countP Label.adds ≤ k + 1 :=
  ⟨fun _ => runsOn_le hs hr, fun p => ⟨runs_le hs hr,
    (pc_le_runs hs hr.uncount p).trans (Nat.add_le_add_left (runs_le hs hr) _)⟩, adds_le hs hr⟩

/-- The first slice of one program: one instruction before the first tick has been waited
for. -/
theorem slot_rate_first_slice :
    ∃ tr s k, moves oneProgram firstSlice (start fifo) = some (tr, s) ∧
      ((system oneProgram fifo).counted State.ticks).Run (start fifo, 0) tr (s, k) ∧
      s.pc 0 = 1 ∧ tr.countP (Label.runs 0) ≤ k + 1 := by
  have hmoves : (moves oneProgram firstSlice (start fifo)).any (fun x => x.2.pc 0 = 1) = true := by
    decide +kernel
  obtain ⟨⟨tr, s⟩, htr, hpc⟩ := (Option.any_eq_true _ _).mp hmoves
  obtain ⟨k, hk⟩ := (run_of_moves htr).exists_counted State.ticks 0
  exact ⟨tr, s, k, htr, hk, of_decide_eq_true hpc, ((slot_rate (.init rfl) hk).2.1 0).1⟩

end Os

end SimpleOs
