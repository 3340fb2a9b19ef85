import SimpleOs.TimerInvariant

/-!
# The slot barrier

`_time` is the slot number every device works by. This module proves that the
timer keeps all devices in the same slot.

Results:
1. `slot_barrier`: `_time++` finds every device with a raised flag; `_time`
   does not change under a working device; a call of `next_slot` returns
   exactly one slot later.
2. `no_lost_wakeup`: neither side sleeps through the change it waits for, the
   timer ends only when every device has detached, and no reachable state with
   an undetached device is a deadlock.
-/

namespace SimpleOs

namespace Timer

/-! ## Where the clock advances -/

theorem deviceRoutine_time {s s' : State} {d : ℕ} (h : deviceRoutine s d = some s') :
    s'.time = s.time := by
  simp only [deviceRoutine, Option.map_eq_some_iff] at h
  obtain ⟨t, _, rfl⟩ := h
  split
  · exact signalEventCond_time s d
  · rfl

/-- Only the statement `_time++` changes the clock. -/
theorem incTime_of_time_ne {n : ℕ} {s s' : State} {a : Act} (h : step n s a = some s')
    (hne : s'.time ≠ s.time) : s.pc = .incTime := by
  cases a with
  | timer =>
    cases timerRoutine_move h with
    | incTime hpc => exact hpc
    | _ => exact absurd rfl hne
  | device d =>
    obtain ⟨_, h⟩ := Option.ite_none_right_eq_some.mp h
    exact absurd (deviceRoutine_time h) hne
  | _ =>
    obtain ⟨_, h⟩ := Option.ite_none_right_eq_some.mp h
    cases h
    exact absurd rfl hne

/-- At `_time++` every device has been counted. -/
theorem view_incTime {s : State} (h : s.pc = .incTime) (d : ℕ) : s.view d = .counted := by
  simp [State.view, h, TimerPc.behind, TimerPc.here, TimerPc.ahead]

theorem raised_of_incTime {n : ℕ} {s : State} (hs : (system n).Reachable s)
    (hpc : s.pc = .incTime) {d : ℕ} (hd : d < n) :
    (s.device d).done = true ∧ (s.device d).pc.waiting = true ∨ (s.device d).fsh = true := by
  have hi := localInv_of_reachable hs hd
  rw [view_incTime hpc d] at hi
  exact hi.counted rfl

theorem not_working_of_incTime {n : ℕ} {s : State} (hs : (system n).Reachable s)
    (hpc : s.pc = .incTime) {d : ℕ} (hd : d < n) : (s.device d).pc ≠ .working := by
  intro hw
  rcases raised_of_incTime hs hpc hd with ⟨_, hwait⟩ | hfsh
  · rw [hw] at hwait
    cases hwait
  · rw [(localInv_of_reachable hs hd).fsh, hw] at hfsh
    cases hfsh

/-! ## One call of next_slot -/

/-- The steps during which device `d` stays inside `next_slot`. -/
def insideNextSlot (n d : ℕ) : Lts State Act :=
  (system n).restrict fun _ _ s' => (s'.device d).pc.inNextSlot = true

theorem calledAt_nextSlot {n : ℕ} {s s' : State} {d : ℕ}
    (h : step n s (.nextSlot d) = some s') :
    (s'.device d).pc.inNextSlot = true ∧ CalledAt s.time (s'.toLocal d) := by
  obtain ⟨_, h⟩ := Option.ite_none_right_eq_some.mp h
  cases h
  have hb : ((s.setDevice d { s.device d with pc := .lockEvent }).toLocal d).beforeTick :=
    .inl (by simp [State.toLocal])
  exact ⟨by simp [DevicePc.inNextSlot], fun _ => rfl, fun hn => absurd hb hn⟩

/-- As long as the call lasts, the clock shows the slot of the call or the next one. -/
theorem calledAt_run {n : ℕ} {s s' : State} {τ : BitVec 64} {d : ℕ} {tr : List Act} (hd : d < n)
    (hs : (system n).Reachable s) (hin : (s.device d).pc.inNextSlot = true)
    (hc : CalledAt τ (s.toLocal d)) (hr : (insideNextSlot n d).Run s tr s') :
    (s'.device d).pc.inNextSlot = true ∧ CalledAt τ (s'.toLocal d) := by
  have hinv : (system n).Reachable s' ∧
      (s'.device d).pc.inNextSlot = true ∧ CalledAt τ (s'.toLocal d) := by
    refine hr.invariant (I := fun t => (system n).Reachable t ∧
      (t.device d).pc.inNextSlot = true ∧ CalledAt τ (t.toLocal d)) ⟨hs, hin, hc⟩ ?_
    rintro t a u ⟨ht, htin, htc⟩ ⟨hst, hu⟩
    refine ⟨ht.step hst, hu, ?_⟩
    rcases step_local hst hd with heq | hl
    · rw [heq]
      exact htc
    · exact htc.step hl (localInv_of_reachable ht hd) htin
  exact hinv.2

/-- Only the last statement of `next_slot` returns. -/
theorem pc_of_return {t t' : Device} (h : t.statement = some t') (hret : t'.pc = .working) :
    t.pc = .unlockTimer := by
  cases statement_cases h with
  | unlockTimer => rfl
  | _ => cases hret

/-- A device that leaves `next_slot` has seen its `done` cleared. -/
theorem time_of_return {n : ℕ} {s s' : State} {τ : BitVec 64} {d : ℕ} (hd : d < n)
    (hs : (system n).Reachable s) (hc : CalledAt τ (s.toLocal d))
    (h : step n s (.device d) = some s')
    (hret : (s'.device d).pc = .working) : s'.time = τ + 1 := by
  have hi := localInv_of_reachable hs hd
  obtain ⟨_, h⟩ := Option.ite_none_right_eq_some.mp h
  have hpc : (s.device d).pc = .unlockTimer := by
    simp only [deviceRoutine, Option.map_eq_some_iff] at h
    obtain ⟨t, ht, rfl⟩ := h
    rw [setDevice_device, if_pos rfl] at hret
    exact pc_of_return ht hret
  have hnot : ¬ (s.toLocal d).beforeTick := by
    rintro (hp | hp | ⟨hdone, _⟩)
    · simp [State.toLocal, hpc] at hp
    · simp [State.toLocal, hpc] at hp
    · rcases hi.done_pc hdone with hp | hp | hp <;> simp [hpc, DevicePc.waiting] at hp
  rw [deviceRoutine_time h]
  exact hc.after hnot

/-- The slot barrier, in every reachable state and for any number of devices.
When the timer executes `_time++`, every device has raised `done` or `fsh`; a
step that changes `_time` finds no device at work; and a call of `next_slot`
made in this state returns with `_time` exactly one more. -/
theorem slot_barrier {n : ℕ} {s : State} (hs : (system n).Reachable s) :
    (s.pc = .incTime → ∀ d < n, (s.device d).done = true ∨ (s.device d).fsh = true) ∧
    (∀ a s', step n s a = some s' → s'.time ≠ s.time → ∀ d < n, (s.device d).pc ≠ .working) ∧
    (∀ d < n, ∀ s₁ tr s₂ s₃, step n s (.nextSlot d) = some s₁ →
      (insideNextSlot n d).Run s₁ tr s₂ → step n s₂ (.device d) = some s₃ →
      (s₃.device d).pc = .working → s₃.time = s.time + 1) := by
  refine ⟨fun hpc d hd => ?_, fun a s' hst hne d hd => ?_, ?_⟩
  · exact (raised_of_incTime hs hpc hd).imp_left And.left
  · exact not_working_of_incTime hs (incTime_of_time_ne hst hne) hd
  · intro d hd s₁ tr s₂ s₃ hcall hrun hret hw
    obtain ⟨hin₁, hc₁⟩ := calledAt_nextSlot hcall
    have hs₁ := hs.step hcall
    obtain ⟨_, hc₂⟩ := calledAt_run hd hs₁ hin₁ hc₁ hrun
    have hs₂ : (system n).Reachable s₂ := hs₁.run hrun.of_restrict
    exact time_of_return hd hs₂ hc₂ hret hw

/-- What one device and the timer do from the call of `next_slot` to `_time++`. -/
def firstTick : List Act :=
  List.replicate 4 (.device 0) ++ List.replicate 7 .timer

/-- And from there to the last statement of `next_slot`. -/
def firstRelease : List Act :=
  List.replicate 6 .timer ++ List.replicate 2 (.device 0)

/-- One step of a single device and the timer that does not leave `next_slot`. -/
def stepInside (s : State) (a : Act) : Option State :=
  (step 1 s a).filter fun t => (t.device 0).pc.inNextSlot

theorem run_of_stepInside {s t : State} {tr : List Act} (h : tr.foldlM stepInside s = some t) :
    (insideNextSlot 1 0).Run s tr t :=
  Lts.Run.of_foldlM (fun _ _ _ h => Option.filter_eq_some_iff.mp h) h

/-- The barrier in the first slot of a system with one device: at `_time++`, and
at the return of the call. -/
theorem slot_barrier_first_slot :
    ∃ s₁, step 1 startTimer (.nextSlot 0) = some s₁ ∧
      (∃ s₂, firstTick.foldlM stepInside s₁ = some s₂ ∧ s₂.pc = .incTime ∧
        (s₂.device 0).done = true) ∧
      ∃ s₃ s₄, (firstTick ++ firstRelease).foldlM stepInside s₁ = some s₃ ∧
        step 1 s₃ (.device 0) = some s₄ ∧ (s₄.device 0).pc = .working ∧
        s₄.time = startTimer.time + 1 := by
  let s₁ := startTimer.setDevice 0 { attachEvent with pc := .lockEvent }
  have hs₀ : (system 1).Reachable startTimer := .init rfl
  have h₁ : step 1 startTimer (.nextSlot 0) = some s₁ := rfl
  refine ⟨s₁, h₁, ?_, ?_⟩
  · have htick : ((firstTick.foldlM stepInside s₁).any
        fun s => s.pc = .incTime && !(s.device 0).fsh) = true := by decide +kernel
    obtain ⟨s₂, h₂, hp⟩ := (Option.any_eq_true _ _).mp htick
    simp only [Bool.and_eq_true, decide_eq_true_eq, Bool.not_eq_true'] at hp
    have hs₂ := (hs₀.step h₁).run (run_of_stepInside h₂).of_restrict
    have hraised := (slot_barrier hs₂).1 hp.1 0 Nat.one_pos
    exact ⟨s₂, h₂, hp.1, hraised.resolve_right (by simp [hp.2])⟩
  · have hreturn : ((firstTick ++ firstRelease).foldlM stepInside s₁).any
        (fun s => (step 1 s (.device 0)).any fun t => (t.device 0).pc = .working) = true := by
      decide +kernel
    obtain ⟨s₃, h₃, hp⟩ := (Option.any_eq_true _ _).mp hreturn
    obtain ⟨s₄, h₄, hw⟩ := (Option.any_eq_true _ _).mp hp
    rw [decide_eq_true_eq] at hw
    exact ⟨s₃, s₄, h₃, h₄, hw,
      (slot_barrier hs₀).2.2 0 Nat.one_pos s₁ _ s₃ s₄ h₁ (run_of_stepInside h₃) h₄ hw⟩

/-! ## The count of detached devices -/

/-- The number of devices the timer has counted in this slot. -/
def State.passed (n : ℕ) (s : State) : ℕ :=
  match s.pc with
  | .forEvent | .lockEvent | .whileDone | .asleep | .woken | .countFsh => s.temp
  | .unlockEvent => s.temp + 1
  | _ => n

/-- The timer is between its two tests for leaving the loop. -/
def TimerPc.inLoop : TimerPc → Bool
  | .whileStop | .exited => false
  | _ => true

/-- The cursor points at a device. -/
def TimerPc.inBody : TimerPc → Bool
  | .lockEvent | .whileDone | .asleep | .woken | .countFsh | .unlockEvent
  | .lockTimer | .clearDone | .signalTimer | .unlockTimer => true
  | _ => false

/-- What the local variables of `timer_routine` say about the devices. -/
structure CountInv (n : ℕ) (s : State) : Prop where
  temp_le : s.temp ≤ n
  temp_lt : s.pc.inBody = true → s.temp < n
  event_eq : s.pc.inLoop = true → s.event = s.passed n
  fsh_le : s.fsh ≤ s.event
  all_fsh : s.pc.inLoop = true → s.fsh = s.event → ∀ d < s.passed n, (s.device d).fsh = true
  stop_fsh : s.timerStop = true → ∀ d < n, (s.device d).fsh = true
  exited_fsh : s.pc = .exited → ∀ d < n, (s.device d).fsh = true

/-- No step of the protocol takes `fsh` back. -/
theorem Local.Step.fsh {l l' : Local} (h : l.Step l') (hf : l.device.fsh = true) :
    l'.device.fsh = true := by
  cases h with
  | statement h =>
    cases statement_cases h with
    | setFsh => rfl
    | _ => exact hf
  | _ => exact hf

theorem step_fsh {n : ℕ} {s s' : State} {a : Act} (h : step n s a = some s') {d : ℕ} (hd : d < n)
    (hf : (s.device d).fsh = true) : (s'.device d).fsh = true := by
  rcases step_local h hd with heq | hl
  · rw [show s'.device d = s.device d from congrArg Local.device heq]
    exact hf
  · exact hl.fsh hf

theorem CountInv.passed_le {n : ℕ} {s : State} (hi : CountInv n s) : s.passed n ≤ n := by
  have htemp := hi.temp_le
  have hlt := hi.temp_lt
  cases hpc : s.pc <;> rw [hpc] at hlt <;> simp only [State.passed, hpc]
  case unlockEvent => exact hlt rfl
  all_goals first | exact htemp | exact Nat.le_refl n

/-- A statement inside the loop that counts no device. -/
theorem CountInv.stay {n : ℕ} {s s' : State} (hi : CountInv n s) (hloop : s.pc.inLoop = true)
    (hloop' : s'.pc.inLoop = true) (hpassed : s'.passed n = s.passed n)
    (htemp : s'.temp ≤ n) (hbody : s'.pc.inBody = true → s'.temp < n)
    (hfsh : s'.fsh = s.fsh) (hevent : s'.event = s.event) (hstop : s'.timerStop = s.timerStop)
    (hmono : ∀ d < n, (s.device d).fsh = true → (s'.device d).fsh = true)
    (hle : s.passed n ≤ n) : CountInv n s' where
  temp_le := htemp
  temp_lt := hbody
  event_eq _ := by rw [hevent, hpassed, hi.event_eq hloop]
  fsh_le := by rw [hfsh, hevent]; exact hi.fsh_le
  all_fsh _ heq d hd := by
    rw [hfsh, hevent] at heq
    rw [hpassed] at hd
    exact hmono d (Nat.lt_of_lt_of_le hd hle) (hi.all_fsh hloop heq d hd)
  stop_fsh h d hd := hmono d hd (hi.stop_fsh (hstop.symm.trans h) d hd)
  exited_fsh h := by
    rw [h] at hloop'
    cases hloop'

/-- Outside the loop the counts of the last slot no longer matter. -/
theorem CountInv.outside {n : ℕ} {s : State} (hloop : s.pc.inLoop = false) (htemp : s.temp ≤ n)
    (hfsh : s.fsh ≤ s.event) (hstop : s.timerStop = true → ∀ d < n, (s.device d).fsh = true)
    (hexit : s.pc = .exited → ∀ d < n, (s.device d).fsh = true) : CountInv n s where
  temp_le := htemp
  temp_lt h := by
    have hbody : ∀ pc : TimerPc, pc.inLoop = false → pc.inBody = false := by
      intro pc
      cases pc <;> decide
    rw [hbody _ hloop] at h
    cases h
  event_eq h := by rw [hloop] at h; cases h
  fsh_le := hfsh
  all_fsh h := by rw [hloop] at h; cases h
  stop_fsh := hstop
  exited_fsh := hexit

theorem timerRoutine_count {n : ℕ} {s s' : State} (h : timerRoutine n s = some s')
    (hi : CountInv n s) : CountInv n s' := by
  have hmono : ∀ d < n, (s.device d).fsh = true → (s'.device d).fsh = true :=
    fun d hd => step_fsh (a := .timer) h hd
  have hle := hi.passed_le
  cases timerRoutine_move h with
  | stopped hpc hstop =>
    exact .outside rfl hi.temp_le hi.fsh_le hi.stop_fsh fun _ => hi.stop_fsh hstop
  | newSlot hpc hstop =>
    exact ⟨Nat.zero_le _, fun h => (by cases h), fun _ => rfl, Nat.le_refl _,
      fun _ _ _ hd => absurd hd (Nat.not_lt_zero _), hi.stop_fsh, fun h => by cases h⟩
  | countFsh hpc =>
    have hpassed : s.passed n = s.temp := by rw [State.passed, hpc]
    have hloop : s.pc.inLoop = true := by rw [hpc]; rfl
    have hbody : s.temp < n := hi.temp_lt (by rw [hpc]; rfl)
    have hevent : s.event + 1 = s.temp + 1 := by rw [hi.event_eq hloop, hpassed]
    refine ⟨hi.temp_le, fun _ => hbody, fun _ => hevent, ?_, fun _ heq d hd => ?_, hi.stop_fsh,
      fun h => by cases h⟩
    · show (if (s.device s.temp).fsh then s.fsh + 1 else s.fsh) ≤ s.event + 1
      split
      · exact Nat.succ_le_succ hi.fsh_le
      · exact Nat.le_succ_of_le hi.fsh_le
    · -- All counted devices have detached only if the one at the cursor has.
      replace heq : (if (s.device s.temp).fsh then s.fsh + 1 else s.fsh) = s.event + 1 := heq
      split at heq
      · next hf =>
        rcases Nat.lt_succ_iff_lt_or_eq.mp (show d < s.temp + 1 from hd) with hlt | rfl
        · exact hi.all_fsh hloop (Nat.succ_inj.mp heq) d (by rw [hpassed]; exact hlt)
        · exact hf
      · exact absurd (heq ▸ hi.fsh_le) (Nat.not_succ_le_self _)
  | allEnded hpc heq =>
    have hpassed : s.passed n = n := by rw [State.passed, hpc]
    have hall := hi.all_fsh (by rw [hpc]; rfl) heq
    rw [hpassed] at hall
    exact .outside rfl hi.temp_le hi.fsh_le hi.stop_fsh fun _ => hall
  | again hpc hne => exact .outside rfl hi.temp_le hi.fsh_le hi.stop_fsh fun h => by cases h
  | allEvents hpc hn =>
    have hpassed : n = s.passed n := by
      rw [State.passed, hpc]
      exact Nat.le_antisymm hn hi.temp_le
    exact hi.stay (by rw [hpc]; rfl) rfl hpassed hi.temp_le (fun h => by cases h) rfl rfl rfl hmono
      hle
  | incTime hpc =>
    exact hi.stay (by rw [hpc]; rfl) rfl (by simp [State.passed, hpc]) (Nat.zero_le n)
      (fun h => by cases h) rfl rfl rfl hmono hle
  | allTimers hpc hn =>
    exact hi.stay (by rw [hpc]; rfl) rfl (by simp [State.passed, hpc]) hi.temp_le
      (fun h => by cases h) rfl rfl rfl hmono hle
  | nextEvent hpc hlt | nextTimer hpc hlt =>
    exact hi.stay (by rw [hpc]; rfl) rfl (by simp [State.passed, hpc]) hi.temp_le
      (fun _ => hlt) rfl rfl rfl hmono hle
  | unlockEvent hpc | unlockTimer hpc =>
    exact hi.stay (by rw [hpc]; rfl) rfl (by simp [State.passed, hpc])
      (hi.temp_lt (by rw [hpc]; rfl)) (fun h => by cases h) rfl rfl rfl hmono hle
  | lockEvent hpc =>
    have hin : s.pc.inLoop = true ∧ s.pc.inBody = true ∧ s.passed n = s.temp := by
      rcases hpc with hpc | hpc <;> rw [State.passed, hpc] <;> exact ⟨rfl, rfl, rfl⟩
    exact hi.stay hin.1 rfl hin.2.2.symm hi.temp_le (fun _ => hi.temp_lt hin.2.1) rfl rfl rfl
      hmono hle
  | sleep hpc | raised hpc | lockTimer hpc | clearDone hpc | signalTimer hpc =>
    exact hi.stay (by rw [hpc]; rfl) rfl (by simp [State.passed, hpc]) hi.temp_le
      (fun _ => hi.temp_lt (by rw [hpc]; rfl)) rfl rfl rfl hmono hle

/-- Any other step leaves the local variables of the timer alone. -/
theorem CountInv.frame {n : ℕ} {s s' : State} (hi : CountInv n s)
    (htemp : s'.temp = s.temp) (hfsh : s'.fsh = s.fsh) (hevent : s'.event = s.event)
    (hpc : s'.pc = s.pc ∨ s.pc = .asleep ∧ s'.pc = .woken)
    (hstop : s'.timerStop = true → ∀ d < n, (s.device d).fsh = true)
    (hmono : ∀ d < n, (s.device d).fsh = true → (s'.device d).fsh = true) : CountInv n s' := by
  have hle := hi.passed_le
  obtain ⟨i1, i2, i3, i4, i5, i6, i7⟩ := hi
  have hsame : s'.pc.inBody = s.pc.inBody ∧ s'.pc.inLoop = s.pc.inLoop ∧
      s'.passed n = s.passed n ∧ (s'.pc = .exited → s.pc = .exited) := by
    unfold State.passed
    rcases hpc with h | ⟨h, h'⟩
    · rw [h, htemp]
      exact ⟨rfl, rfl, rfl, id⟩
    · rw [h, h', htemp]
      exact ⟨rfl, rfl, rfl, nofun⟩
  obtain ⟨hbody, hloop, hpassed, hexited⟩ := hsame
  constructor
  · rw [htemp]
    exact i1
  · rw [htemp, hbody]
    exact i2
  · rw [hevent, hloop, hpassed]
    exact i3
  · rw [hfsh, hevent]
    exact i4
  · rw [hfsh, hevent, hloop, hpassed]
    exact fun hl heq d hd => hmono d (Nat.lt_of_lt_of_le hd hle) (i5 hl heq d hd)
  · exact fun h d hd => hmono d hd (hstop h d hd)
  · exact fun h d hd => hmono d hd (i7 (hexited h) d hd)

theorem signalEventCond_frame (s : State) (d : ℕ) :
    (signalEventCond s d).temp = s.temp ∧ (signalEventCond s d).fsh = s.fsh ∧
    (signalEventCond s d).event = s.event ∧ (signalEventCond s d).timerStop = s.timerStop ∧
    ((signalEventCond s d).pc = s.pc ∨ s.pc = .asleep ∧ (signalEventCond s d).pc = .woken) := by
  unfold signalEventCond
  split
  · next h => exact ⟨rfl, rfl, rfl, rfl, .inr ⟨h.1, rfl⟩⟩
  · exact ⟨rfl, rfl, rfl, rfl, .inl rfl⟩

theorem countInv_of_reachable {n : ℕ} {s : State} (hs : (system n).Reachable s) :
    CountInv n s := by
  have hinv : (system n).Reachable s ∧ CountInv n s := by
    refine hs.invariant (I := fun s => (system n).Reachable s ∧ CountInv n s) ?_ ?_
    · rintro s rfl
      refine ⟨.init rfl, ?_⟩
      constructor <;> simp [startTimer, TimerPc.inBody, TimerPc.inLoop]
    · rintro s a s' ⟨hr, hi⟩ hst
      refine ⟨hr.step hst, ?_⟩
      have hmono : ∀ d < n, (s.device d).fsh = true → (s'.device d).fsh = true :=
        fun d hd => step_fsh hst hd
      cases a with
      | timer => exact timerRoutine_count hst hi
      | device d =>
        obtain ⟨_, h⟩ := Option.ite_none_right_eq_some.mp hst
        simp only [deviceRoutine, Option.map_eq_some_iff] at h
        obtain ⟨t, _, rfl⟩ := h
        split at hmono
        · obtain ⟨h1, h2, h3, h4, h5⟩ := signalEventCond_frame s d
          rw [if_pos ‹_›]
          exact hi.frame h1 h2 h3 h5 (fun h => hi.stop_fsh (h4 ▸ h)) hmono
        · rw [if_neg ‹_›]
          exact hi.frame rfl rfl rfl (.inl rfl) hi.stop_fsh hmono
      | wakeTimer =>
        obtain ⟨hp, h⟩ := Option.ite_none_right_eq_some.mp hst
        cases h
        exact hi.frame rfl rfl rfl (.inr ⟨hp, rfl⟩) hi.stop_fsh hmono
      | stopTimer =>
        obtain ⟨hend, h⟩ := Option.ite_none_right_eq_some.mp hst
        cases h
        refine hi.frame rfl rfl rfl (.inl rfl) (fun _ d hd => ?_) hmono
        rw [(localInv_of_reachable hr hd).fsh, hend d hd]
        rfl
      | _ =>
        obtain ⟨_, h⟩ := Option.ite_none_right_eq_some.mp hst
        cases h
        exact hi.frame rfl rfl rfl (.inl rfl) hi.stop_fsh hmono
  exact hinv.2

/-! ## Waiting and progress -/

/-- The step is a spurious wake-up of a condition variable. -/
def Act.spurious : Act → Bool
  | .wakeTimer | .wakeDevice _ => true
  | _ => false

/-- A device outside its critical sections holds no mutex. -/
theorem locks_free {n : ℕ} {s : State} (hs : (system n).Reachable s) {d : ℕ} (hd : d < n)
    (hv : (s.view d).inEvent = false ∧ (s.view d).inTimer = false)
    (ht : (s.device d).pc.inEvent = false ∧ (s.device d).pc.inTimer = false) :
    (s.device d).eventLock = none ∧ (s.device d).timerLock = none := by
  have hi := localInv_of_reachable hs hd
  rw [hi.eventLock, hi.timerLock, hv.1, hv.2, ht.1, ht.2]
  exact ⟨rfl, rfl⟩

/-- A device thread that cannot move holds no mutex, and if both mutexes of its
device are free it sleeps or has ended. -/
theorem statement_none {t : Device} (h : t.statement = none) (hw : t.pc ≠ .working) :
    (t.pc.inEvent = false ∧ t.pc.inTimer = false) ∧
    (t.eventLock = none → t.timerLock = none → t.pc = .asleep ∨ t.pc = .ended) := by
  obtain ⟨done, fsh, eventLock, timerLock, pc⟩ := t
  cases pc with
  | working => exact absurd rfl hw
  | asleep => exact ⟨⟨rfl, rfl⟩, fun _ _ => .inl rfl⟩
  | ended => exact ⟨⟨rfl, rfl⟩, fun _ _ => .inr rfl⟩
  | lockEvent | detachLock =>
    refine ⟨⟨rfl, rfl⟩, fun hlock _ => ?_⟩
    obtain rfl : eventLock = none := hlock
    cases h
  | lockTimer | woken =>
    refine ⟨⟨rfl, rfl⟩, fun _ hlock => ?_⟩
    obtain rfl : timerLock = none := hlock
    cases h
  | whileDone =>
    cases done with
    | true => cases h
    | false => cases h
  | _ => cases h

/-- The same for the timer. -/
theorem timerRoutine_none {n : ℕ} {s : State} (h : timerRoutine n s = none) :
    (∀ d, (s.view d).inEvent = false ∧ (s.view d).inTimer = false) ∧
    (s.pc.inBody = true ∨ s.pc = .exited) ∧
    ((s.device s.temp).eventLock = none → (s.device s.temp).timerLock = none →
      s.pc = .asleep ∨ s.pc = .exited) := by
  obtain ⟨time, stop, pc, temp, fsh, event, device⟩ := s
  cases pc <;> simp only [timerRoutine] at h <;> (try split at h) <;> (try cases h)
  all_goals
    refine ⟨fun d => ?_, by simp [TimerPc.inBody], fun he ht => ?_⟩
    · simp only [State.view, TimerPc.behind, TimerPc.here, TimerPc.ahead]
      grind [View.inEvent, View.inTimer]
    · simp_all

/-- In a state where no thread can move, every device has ended and so has the timer:
it cannot be asleep, since the device it waits for would sleep too or have ended. -/
theorem ended_of_stuck {n : ℕ} {s : State} (hs : (system n).Reachable s)
    (htimer : timerRoutine n s = none)
    (hdevice : ∀ d < n, (s.device d).statement = none ∧ (s.device d).pc ≠ .working) :
    s.pc = .exited ∧ ∀ d < n, (s.device d).pc = .ended := by
  obtain ⟨hview, hbody, htimer⟩ := timerRoutine_none htimer
  have hrest : ∀ e < n, ((s.device e).eventLock = none ∧ (s.device e).timerLock = none) ∧
      ((s.device e).pc = .asleep ∨ (s.device e).pc = .ended) := by
    intro e he
    obtain ⟨hin, hpc⟩ := statement_none (hdevice e he).1 (hdevice e he).2
    have hlocks := locks_free hs he (hview e) hin
    exact ⟨hlocks, hpc hlocks.1 hlocks.2⟩
  have hexited : s.pc = .exited := by
    refine hbody.resolve_left fun hb => ?_
    have htemp := (countInv_of_reachable hs).temp_lt hb
    obtain ⟨hlocks, hpc⟩ := hrest s.temp htemp
    have hi := localInv_of_reachable hs htemp
    rcases htimer hlocks.1 hlocks.2 with hasleep | hexit
    · have hv : s.view s.temp = .asleep := by simp [State.view, hasleep, TimerPc.here]
      rw [hv] at hi
      rcases hpc with hp | hp
      · have hdone : (s.device s.temp).done = true := by
          by_contra hdone
          exact absurd (hi.device_asleep hp (by simpa using hdone)) (by decide)
        have := hi.timer_asleep rfl (.inl hdone)
        simp [hp, DevicePc.signals] at this
      · have hfsh : (s.device s.temp).fsh = true := by rw [hi.fsh, hp]; rfl
        have := hi.timer_asleep rfl (.inr hfsh)
        simp [hp, DevicePc.signals] at this
    · simp [hexit, TimerPc.inBody] at hb
  refine ⟨hexited, fun d hd => (hrest d hd).2.resolve_left fun hasleep => ?_⟩
  have hfsh := (countInv_of_reachable hs).exited_fsh hexited d hd
  rw [(localInv_of_reachable hs hd).fsh, hasleep] at hfsh
  cases hfsh

/-- No wake-up is lost and the timer does not end early, in every reachable
state and for any number of devices.

A wake-up of the timer is pending while the device is at its call of
`pthread_cond_signal`, and a wake-up of a device while the timer is at its own.
Without one, the timer does not sleep on a device with a raised flag, and a
device does not sleep with its `done` cleared. The timer has left its loop only
if every device has detached, and then none is inside `next_slot`. While some
device has not detached, some thread can move without a spurious wake-up. -/
theorem no_lost_wakeup {n : ℕ} {s : State} (hs : (system n).Reachable s) :
    (∀ d < n, s.pc = .asleep → s.temp = d →
      (s.device d).done = true ∨ (s.device d).fsh = true → (s.device d).pc.signals = true) ∧
    (∀ d < n, (s.device d).pc = .asleep → (s.device d).done = false →
      s.pc = .signalTimer ∧ s.temp = d) ∧
    (s.pc = .exited → ∀ d < n, (s.device d).fsh = true ∧ (s.device d).pc.inNextSlot = false) ∧
    ((∃ d < n, (s.device d).fsh = false) → ∃ a s', a.spurious = false ∧ step n s a = some s') := by
  refine ⟨?_, ?_, ?_, ?_⟩
  · rintro d hd hp rfl
    exact (localInv_of_reachable hs hd).timer_asleep (by simp [State.view, hp, TimerPc.here])
  · intro d hd hp hdone
    have hv := (localInv_of_reachable hs hd).device_asleep hp hdone
    simp only [State.view] at hv
    split at hv
    · cases hpc : s.pc <;> simp [hpc, TimerPc.behind] at hv
    · split at hv
      · next heq =>
        refine ⟨?_, heq.symm⟩
        cases hpc : s.pc <;> simp [hpc, TimerPc.here] at hv
        rfl
      · cases hpc : s.pc <;> simp [hpc, TimerPc.ahead] at hv
  · intro hp d hd
    have hfsh := (countInv_of_reachable hs).exited_fsh hp d hd
    refine ⟨hfsh, ?_⟩
    rw [(localInv_of_reachable hs hd).fsh] at hfsh
    by_contra hin
    rw [inNextSlot_not_detached (by simpa using hin)] at hfsh
    cases hfsh
  · rintro ⟨d, hd, hfsh⟩
    by_contra hnone
    push Not at hnone
    have hstuck : ∀ a, a.spurious = false → step n s a = none := fun a ha =>
      Option.eq_none_iff_forall_ne_some.mpr fun s' => hnone a s' ha
    have hended := (ended_of_stuck hs (hstuck .timer rfl) fun e he => ⟨?_, ?_⟩).2 d hd
    · rw [(localInv_of_reachable hs hd).fsh, hended] at hfsh
      cases hfsh
    · simpa [step, he, deviceRoutine] using hstuck (.device e) rfl
    · simpa [step, he] using hstuck (.nextSlot e) rfl

/-- The timer asleep on a device that is still at work: it has nothing to miss,
and the device can move. -/
theorem no_lost_wakeup_asleep :
    ∃ s : State, (List.replicate 4 Act.timer).foldlM (step 1) startTimer = some s ∧
      s.pc = .asleep ∧ ¬ ((s.device 0).done = true ∨ (s.device 0).fsh = true) ∧
      ∃ a t, a.spurious = false ∧ step 1 s a = some t := by
  let s := ((List.replicate 4 Act.timer).foldlM (step 1) startTimer).getD startTimer
  have hrun : (List.replicate 4 Act.timer).foldlM (step 1) startTimer = some s := rfl
  have hs : (system 1).Reachable s :=
    ⟨startTimer, _, rfl, Lts.Run.of_foldlM (fun _ _ _ h => h) hrun⟩
  obtain ⟨htimer, -, -, hmove⟩ := no_lost_wakeup hs
  have hsig : (s.device 0).pc.signals ≠ true := by decide
  exact ⟨s, hrun, rfl, fun h => hsig (htimer 0 Nat.one_pos rfl rfl h),
    hmove ⟨0, Nat.one_pos, rfl⟩⟩

end Timer

end SimpleOs
