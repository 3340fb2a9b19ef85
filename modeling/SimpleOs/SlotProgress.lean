import SimpleOs.SlotRate

/-!
# The length of a slot

No thread can hold up the clock: between two ticks a thread makes a bounded number of
statements, and the timer and the calls of `next_slot` are paid for by those. And no
state is a deadlock, as long as `get_proc` returns.

Results:
1. `statements_le_ticks`: the number of statements of a run is bounded by its number
   of ticks.
2. `stuck_iff`: a reachable state has no statement left exactly if all threads have
   ended.
3. `loaded_of_longEnough`: hence every program is added, in every run that is long
   enough, as long as `load`, `get_proc` and `run` return.
-/

namespace SimpleOs

namespace Os

variable {ι π : Type*} {cfg : Config ι} {Q : ReadyQueue π} {s s' : State π} {lab : Label ι}

/-! ## What a thread pays in a slot -/

/-- What a call of `next_slot` costs, with `n` devices: the call, the statements inside
it, and a slot of the timer. -/
def callCost (n : ℕ) : ℕ :=
  Timer.slotLength n + 11

/-- The statements of a CPU up to its next call of the timer, and the cost of this
call. -/
def CpuPc.pay (n : ℕ) : CpuPc → ℕ
  | .top => callCost n + 4
  | .getFirst | .getAfterFree | .getAfterPut => callCost n + 3
  | .recheck => callCost n + 2
  | .exec => callCost n + 1
  | .slot => callCost n
  | .leave => 7
  | .stopped => 0

/-- The same for the loader. -/
def LoaderPc.pay (n : ℕ) : LoaderPc → ℕ
  | .whileLoad => callCost n + 3
  | .waitStart => callCost n + 2
  | .addProc => callCost n + 1
  | .slot | .waitSlot => callCost n
  | .setDone => 8
  | .leave => 7
  | .stopped => 0

/-- Inside `next_slot` nothing is left to pay before the tick. -/
def payUntilTick (t : Timer.State) (d pay : ℕ) : ℕ :=
  if (t.toLocal d).beforeTick then 0 else pay

def State.cpuPay (cfg : Config ι) (s : State π) (c : ℕ) : ℕ :=
  payUntilTick s.timer (cfg.device c) ((s.cpu c).pc.pay cfg.devices)

def State.loaderPay (cfg : Config ι) (s : State π) : ℕ :=
  payUntilTick s.timer Config.loaderDevice (s.loader.pc.pay cfg.devices)

/-- What is left to pay before the next tick. -/
def State.pay (cfg : Config ι) (s : State π) : ℕ :=
  s.timer.toGo cfg.devices + ∑ c ∈ Finset.range cfg.numCpus, s.cpuPay cfg c + s.loaderPay cfg

/-- The statements of all threads in one slot. -/
def Config.slotBound (cfg : Config ι) : ℕ :=
  cfg.numCpus * (callCost cfg.devices + 4) + (callCost cfg.devices + 3)

theorem payUntilTick_le (t : Timer.State) (d pay : ℕ) : payUntilTick t d pay ≤ pay := by
  unfold payUntilTick
  split
  · exact Nat.zero_le pay
  · exact le_rfl

theorem cpuPay_le_top (s : State π) (c : ℕ) : s.cpuPay cfg c ≤ callCost cfg.devices + 4 := by
  refine (payUntilTick_le _ _ _).trans ?_
  cases (s.cpu c).pc <;> simp only [CpuPc.pay, callCost] <;> omega

theorem loaderPay_le_top (s : State π) : s.loaderPay cfg ≤ callCost cfg.devices + 3 := by
  refine (payUntilTick_le _ _ _).trans ?_
  cases s.loader.pc <;> simp only [LoaderPc.pay, callCost] <;> omega

/-- After a tick a whole slot is to be paid for. -/
theorem pay_le_slotBound (s : State π) :
    s.pay cfg ≤ s.timer.toGo cfg.devices + cfg.slotBound := by
  have hsum : ∑ c ∈ Finset.range cfg.numCpus, s.cpuPay cfg c ≤
      cfg.numCpus * (callCost cfg.devices + 4) := by
    refine (Finset.sum_le_card_nsmul _ _ _ fun c _ => cpuPay_le_top s c).trans_eq ?_
    rw [Finset.card_range, smul_eq_mul]
  have hloader : s.loaderPay cfg ≤ callCost cfg.devices + 3 := loaderPay_le_top s
  unfold State.pay Config.slotBound
  omega

/-! ## One step -/

/-- Without a tick a thread that does nothing has nothing more to pay. -/
theorem payUntilTick_step {d pay : ℕ} (ht : Threads cfg s) (hst : Step cfg Q s lab s')
    (hd : d < cfg.devices) (htick : s.ticks lab = false) (hcall : ¬ lab.calls d) :
    payUntilTick s'.timer d pay ≤ payUntilTick s.timer d pay := by
  unfold payUntilTick
  split
  · exact Nat.zero_le _
  · next hnot =>
    rw [if_neg fun hb => hnot (beforeTick_step ht hst hd htick hcall hb)]

theorem payUntilTick_working {d pay : ℕ} (ht : Threads cfg s) (hd : d < cfg.devices)
    (hw : (s.timer.device d).pc = .working) : payUntilTick s.timer d pay = pay :=
  if_neg (Timer.not_beforeTick ht.timer hd hw)

/-- A statement of a CPU brings it closer to its call. -/
theorem CpuMove.pay_lt {c : ℕ} (hm : CpuMove cfg Q s c lab s') (n : ℕ) :
    (s'.cpu c).pc.pay n < (s.cpu c).pc.pay n := by
  have hself : ∀ u : Cpu, u.pc.pay n < (s.cpu c).pc.pay n →
      (Function.update s.cpu c u c).pc.pay n < (s.cpu c).pc.pay n := by
    intro u hu
    rwa [Function.update_self]
  cases hm with
  | @got r q k hgets =>
    refine hself _ ?_
    have hpay : (s.cpu c).pc.pay n = callCost n + 3 := by
      cases hpc : (s.cpu c).pc <;> rw [hpc] at hgets <;> first | rfl | cases hgets
    rw [hpay]
    dsimp only
    split
    · exact Nat.lt_add_of_pos_right (Nat.succ_pos 2)
    · exact Nat.lt_succ_self _
  | noProc hpc | finished hpc | expired hpc | running hpc | exit hpc | idle hpc | dispatch hpc
  | exec hpc =>
    refine hself _ ?_
    rw [hpc]
    simp only [CpuPc.pay, callCost]
    omega

/-- And a statement of the loader. -/
theorem LoaderMove.pay_lt (hm : LoaderMove cfg Q s lab s') (n : ℕ) :
    s'.loader.pc.pay n < s.loader.pc.pay n := by
  cases hm with
  | load hpc | allLoaded hpc | early hpc | onTime hpc | addProc hpc | setDone hpc =>
    rw [hpc]
    simp only [LoaderPc.pay, callCost]
    omega

theorem CpuMove.pay_step {c : ℕ} (hm : CpuMove cfg Q s c lab s') (ht : Threads cfg s)
    (hc : c < cfg.numCpus) (hw : (s.timer.device (cfg.device c)).pc = .working) :
    s'.pay cfg + 1 ≤ s.pay cfg := by
  obtain ⟨htimer, hloader, -⟩ := hm.frame
  have hself : s'.cpuPay cfg c + 1 ≤ s.cpuPay cfg c := by
    unfold State.cpuPay
    rw [payUntilTick_working ht (device_lt cfg c) hw]
    exact (Nat.succ_le_succ (payUntilTick_le _ _ _)).trans (hm.pay_lt _)
  have hsum := Lts.sum_add_le (f := s.cpuPay cfg) (g := s'.cpuPay cfg) hc (fun d hd => by
    rw [State.cpuPay, State.cpuPay, htimer, cpuMove_other hm hd]) hself
  have hld : s'.loaderPay cfg = s.loaderPay cfg := by
    rw [State.loaderPay, State.loaderPay, htimer, hloader]
  unfold State.pay
  rw [htimer, hld]
  omega

theorem LoaderMove.pay_step (hm : LoaderMove cfg Q s lab s') (ht : Threads cfg s)
    (hw : (s.timer.device Config.loaderDevice).pc = .working) : s'.pay cfg + 1 ≤ s.pay cfg := by
  obtain ⟨hcpu, htimer, -⟩ := hm.frame
  have hself : s'.loaderPay cfg + 1 ≤ s.loaderPay cfg := by
    unfold State.loaderPay
    rw [payUntilTick_working ht loaderDevice_lt hw]
    exact (Nat.succ_le_succ (payUntilTick_le _ _ _)).trans (hm.pay_lt _)
  have hsame : s'.cpuPay cfg = s.cpuPay cfg := by
    funext c
    rw [State.cpuPay, State.cpuPay, htimer, hcpu]
  unfold State.pay
  rw [htimer, hsame]
  omega

/-- The calls of a CPU pay for what they cost the timer. -/
theorem pay_cpuCall {c : ℕ} {a : Timer.Act} {pc : CpuPc} {t : Timer.State} (ht : Threads cfg s)
    (hst : Step cfg Q s (.timer a) { s.setCpu c { s.cpu c with pc := pc } with timer := t })
    (hc : c < cfg.numCpus) (hcall : (s.cpu c).pc.call (cfg.device c) = some (a, pc))
    (hstep : Timer.step cfg.devices s.timer a = some t) :
    State.pay cfg { s.setCpu c { s.cpu c with pc := pc } with timer := t } + 1 ≤ s.pay cfg := by
  set s' : State π := { s.setCpu c { s.cpu c with pc := pc } with timer := t } with hs'
  have ha := CpuPc.call_eq hcall
  have htick : s.ticks (.timer a : Label ι) = false :=
    Timer.ticks_of_call (ha.imp And.left And.left)
  have hw := (timer_call (ha.imp And.left And.left) hstep).2.1
  have htoGo : t.toGo cfg.devices ≤ s.timer.toGo cfg.devices + a.gain cfg.devices :=
    (Nat.le_add_right _ _).trans (Timer.step_toGo ht.timer hstep)
  have hself : s'.cpuPay cfg c + (a.gain cfg.devices + 1) ≤ s.cpuPay cfg c := by
    unfold State.cpuPay
    rw [payUntilTick_working ht (device_lt cfg c) hw]
    rcases ha with ⟨rfl, hpc, rfl⟩ | ⟨rfl, hpc, rfl⟩
    · rw [payUntilTick, if_pos (beforeTick_nextSlot hstep), hpc, Nat.zero_add]
      exact le_rfl
    · have hstopped : (s'.cpu c).pc = .stopped := by simp [hs', State.setCpu]
      rw [hstopped, hpc]
      exact Nat.add_le_add_right (payUntilTick_le _ _ _) _
  have hother : ∀ d, d < cfg.numCpus → d ≠ c → s'.cpuPay cfg d ≤ s.cpuPay cfg d := by
    intro d hd hdc
    have hne : cfg.device c ≠ cfg.device d := fun h => hdc (device_inj hd hc h.symm)
    have hcpu : s'.cpu d = s.cpu d := by simp [hs', State.setCpu, hdc]
    rw [State.cpuPay, State.cpuPay, hcpu]
    exact payUntilTick_step ht hst (device_lt cfg d) htick (not_calls_of_cpuCall hcall hne)
  have hloader : s'.loaderPay cfg ≤ s.loaderPay cfg :=
    payUntilTick_step ht hst loaderDevice_lt htick
      (not_calls_of_cpuCall hcall (device_ne_loader hc))
  have hsum := Lts.sum_add_le_of_lt hc hother hself
  have htimer : s'.timer = t := rfl
  unfold State.pay
  rw [htimer]
  omega

/-- And the calls of the loader. -/
theorem pay_loaderCall {a : Timer.Act} {pc : LoaderPc} {t : Timer.State} (ht : Threads cfg s)
    (hst : Step cfg Q s (.timer a) { s with loader := ⟨pc, s.loader.i⟩, timer := t })
    (hcall : s.loader.pc.call Config.loaderDevice = some (a, pc))
    (hstep : Timer.step cfg.devices s.timer a = some t) :
    State.pay cfg { s with loader := ⟨pc, s.loader.i⟩, timer := t } + 1 ≤ s.pay cfg := by
  set s' : State π := { s with loader := ⟨pc, s.loader.i⟩, timer := t } with hs'
  have ha := LoaderPc.call_eq hcall
  have htick : s.ticks (.timer a : Label ι) = false :=
    Timer.ticks_of_call (ha.imp And.left And.left)
  have hw := (timer_call (ha.imp And.left And.left) hstep).2.1
  have htoGo : t.toGo cfg.devices ≤ s.timer.toGo cfg.devices + a.gain cfg.devices :=
    (Nat.le_add_right _ _).trans (Timer.step_toGo ht.timer hstep)
  have hself : s'.loaderPay cfg + (a.gain cfg.devices + 1) ≤ s.loaderPay cfg := by
    unfold State.loaderPay
    rw [payUntilTick_working ht loaderDevice_lt hw]
    rcases ha with ⟨rfl, hpc⟩ | ⟨rfl, hpc, rfl⟩
    · rw [payUntilTick, if_pos (beforeTick_nextSlot hstep), Nat.zero_add]
      rcases hpc with ⟨hpc, -⟩ | ⟨hpc, -⟩ <;> rw [hpc] <;> exact le_rfl
    · rw [hpc]
      exact Nat.add_le_add_right (payUntilTick_le _ _ _) _
  have hsum : ∑ c ∈ Finset.range cfg.numCpus, s'.cpuPay cfg c ≤
      ∑ c ∈ Finset.range cfg.numCpus, s.cpuPay cfg c :=
    Finset.sum_le_sum fun c hc => payUntilTick_step ht hst (device_lt cfg c) htick
      (not_calls_of_loaderCall hcall (device_ne_loader (Finset.mem_range.mp hc)).symm)
  have htimer : s'.timer = t := rfl
  unfold State.pay
  rw [htimer]
  omega

/-- The steps of the timer that no thread calls. -/
theorem pay_timer {a : Timer.Act} {t : Timer.State} (ht : Threads cfg s)
    (hst : Step cfg Q s (.timer a) { s with timer := t }) (ha : a.isCall = false)
    (hstep : Timer.step cfg.devices s.timer a = some t) :
    State.pay cfg { s with timer := t } + (if a.isStatement then 1 else 0) ≤
      s.pay cfg + (if a.spurious then 2 else 0) + if s.timer.ticks a then cfg.slotBound else 0 := by
  have htoGo := Timer.step_toGo ht.timer hstep
  rw [Timer.gain_of_not_call ha] at htoGo
  cases htick : s.timer.ticks a with
  | true =>
    have hle : State.pay cfg { s with timer := t } ≤ t.toGo cfg.devices + cfg.slotBound :=
      pay_le_slotBound _
    have hge : s.timer.toGo cfg.devices ≤ s.pay cfg :=
      (Nat.le_add_right _ _).trans (Nat.le_add_right _ _)
    rw [if_pos rfl]
    omega
  | false =>
    have hsum : ∑ c ∈ Finset.range cfg.numCpus, State.cpuPay cfg { s with timer := t } c ≤
        ∑ c ∈ Finset.range cfg.numCpus, s.cpuPay cfg c :=
      Finset.sum_le_sum fun c _ => payUntilTick_step ht hst (device_lt cfg c) htick
        (not_calls_of_timer ha _)
    have hloader : State.loaderPay cfg { s with timer := t } ≤ s.loaderPay cfg :=
      payUntilTick_step ht hst loaderDevice_lt htick (not_calls_of_timer ha _)
    rw [if_neg Bool.false_ne_true]
    unfold State.pay
    dsimp only
    omega

/-- Every statement is paid for, and only the tick gives a new slot to pay with. -/
theorem step_pay (ht : Threads cfg s) (hst : Step cfg Q s lab s') :
    s'.pay cfg + (if lab.isStatement then 1 else 0) ≤
      s.pay cfg + (if lab.spurious then 2 else 0) + if s.ticks lab then cfg.slotBound else 0 := by
  have hpaid : s'.pay cfg + 1 ≤ s.pay cfg → s'.pay cfg + (if lab.isStatement then 1 else 0) ≤
      s.pay cfg + (if lab.spurious then 2 else 0) + if s.ticks lab then cfg.slotBound else 0 := by
    intro hle
    split <;> omega
  cases hst with
  | cpu hc hw hget hm => exact hpaid ((cpuRoutine_move hget hm).pay_step ht hc hw)
  | loader hw hm => exact hpaid ((ldRoutine_move hm).pay_step ht hw)
  | cpuCall hc hcall hstep =>
    exact hpaid (pay_cpuCall (Q := Q) ht (.cpuCall hc hcall hstep) hc hcall hstep)
  | loaderCall hcall hstep =>
    exact hpaid (pay_loaderCall (Q := Q) ht (.loaderCall hcall hstep) hcall hstep)
  | @timer a t ha hstep =>
    have hstatement : (Label.timer a : Label ι).isStatement = a.isStatement := by
      show (a.isStatement || a.isCall) = a.isStatement
      rw [ha, Bool.or_false]
    rw [hstatement]
    exact pay_timer (Q := Q) ht (.timer ha hstep) ha hstep

/-- From any reachable state on, the clock bounds the statements. -/
theorem statements_le_pay {t : State π} {tr : List (Label ι)} {k : ℕ}
    (hs : (system cfg Q).Reachable s)
    (hr : ((system cfg Q).counted State.ticks).Run (s, 0) tr (t, k)) :
    tr.countP Label.isStatement ≤ s.pay cfg + 2 * tr.countP Label.spurious + cfg.slotBound * k :=
  le_trans (Nat.le_add_left _ _) (hr.count_le_ticks (threads_of_reachable hs)
    fun _ _ _ ht hst => ⟨ht.step hst, step_pay ht hst⟩)

theorem pay_start : (start Q).pay cfg ≤ Timer.slotLength cfg.devices + cfg.slotBound := by
  refine (pay_le_slotBound _).trans (Nat.add_le_add_right ?_ _)
  have hslots : Timer.startTimer.slots cfg.devices = 0 := by
    simp [Timer.State.slots, Timer.State.goesOn, Timer.TimerPc.inLoop, Timer.startTimer,
      Timer.Local.due, Timer.State.toLocal, Timer.attachEvent]
  show Timer.startTimer.toGo cfg.devices ≤ _
  unfold Timer.State.toGo
  rw [hslots]
  simp [Timer.startTimer, Timer.attachEvent, Timer.DevicePc.toGo, Timer.TimerPc.toGo,
    Timer.slotLength]

/-- A run with `k` ticks makes a bounded number of statements, apart from those that
spurious wake-ups cost: no thread can hold up the clock. -/
theorem statements_le_ticks {tr : List (Label ι)} {k : ℕ}
    (hr : ((system cfg Q).counted State.ticks).Run (start Q, 0) tr (s, k)) :
    tr.countP Label.isStatement ≤ Timer.slotLength cfg.devices + cfg.slotBound * (k + 1) +
      2 * tr.countP Label.spurious := by
  have hle := statements_le_pay (.init rfl) hr
  have hstart : (start Q).pay cfg ≤ Timer.slotLength cfg.devices + cfg.slotBound := pay_start
  rw [Nat.mul_succ]
  omega

/-! ## A whole run -/

/-- All threads, in the order in which `drive` asks them. -/
def Config.threads (cfg : Config ι) : List Thread :=
  .timer .timer :: (List.range cfg.devices).map (Thread.timer ∘ .device) ++
    .loader :: (List.range cfg.numCpus).map .cpu

/-- The system runs on, the first thread that can move taking each step. -/
def drive (cfg : Config ι) : ℕ → State (List ℕ) → List (Label ι) × State (List ℕ)
  | 0, s => ([], s)
  | fuel + 1, s =>
    match cfg.threads.findSome? (move cfg s) with
    | none => ([], s)
    | some (lab, t) =>
      let (tr, u) := drive cfg fuel t
      (lab :: tr, u)

theorem run_of_drive (cfg : Config ι) (fuel : ℕ) (s : State (List ℕ)) :
    (system cfg fifo).Run s (drive cfg fuel s).1 (drive cfg fuel s).2 := by
  induction fuel generalizing s with
  | zero => exact .nil
  | succ fuel ih =>
    unfold drive
    split
    · exact .nil
    · next lab t hmove =>
      obtain ⟨th, -, hth⟩ := List.exists_of_findSome?_eq_some hmove
      exact Lts.Run.cons (step_of_move hth) (ih t)

/-- The whole run of one CPU and one program: 98 statements in two slots. -/
theorem statements_le_ticks_oneInstruction :
    ∃ k, ((system oneInstruction fifo).counted State.ticks).Run (start fifo, 0)
        (drive oneInstruction 98 (start fifo)).1 ((drive oneInstruction 98 (start fifo)).2, k) ∧
      98 ≤ 33 + 95 * (k + 1) := by
  obtain ⟨k, hk⟩ :=
    (run_of_drive oneInstruction 98 (start fifo)).exists_counted State.ticks 0
  have hcount : (drive oneInstruction 98 (start fifo)).1.countP Label.isStatement = 98 ∧
      (drive oneInstruction 98 (start fifo)).1.countP Label.spurious = 0 := by
    decide +kernel
  have hle := statements_le_ticks hk
  rw [hcount.1, hcount.2] at hle
  exact ⟨k, hk, hle⟩

/-! ## No deadlock -/

/-- The loader outside its calls of the timer has a statement to make. -/
theorem ldRoutine_some (hcall : s.loader.pc.call Config.loaderDevice = none)
    (hstop : s.loader.pc ≠ .stopped) : ∃ x, ldRoutine cfg Q s = some x := by
  unfold ldRoutine
  cases hpc : s.loader.pc with
  | whileLoad | waitStart =>
    dsimp only
    split <;> exact ⟨_, rfl⟩
  | addProc | setDone => exact ⟨_, rfl⟩
  | waitSlot | slot | leave => rw [hpc] at hcall; cases hcall
  | stopped => exact absurd hpc hstop

/-- The loader makes a statement, or the call it is at, where its device is at work. -/
theorem Threads.loader_move (ht : Threads cfg s)
    (hworking : (s.timer.device Config.loaderDevice).pc = .working) :
    ∃ lab s', lab.isStatement = true ∧ Step cfg Q s lab s' := by
  have hdevice := ht.loader
  rw [LoaderDevice, hworking] at hdevice
  cases hcall : s.loader.pc.call Config.loaderDevice with
  | none =>
    obtain ⟨⟨lab, s'⟩, hroutine⟩ : ∃ x, ldRoutine cfg Q s = some x := ldRoutine_some hcall hdevice
    have hmove := ldRoutine_move hroutine
    refine ⟨lab, s', ?_, .loader hworking hroutine⟩
    cases hmove <;> rfl
  | some call =>
    obtain ⟨a, pc⟩ := call
    have ha := (LoaderPc.call_eq hcall).imp And.left And.left
    obtain ⟨t, hst⟩ := call_step (@loaderDevice_lt _ cfg) hworking ha
    refine ⟨_, _, ?_, .loaderCall hcall hst⟩
    rcases ha with rfl | rfl <;> rfl

/-- All threads have ended. -/
structure Ended (cfg : Config ι) (s : State π) : Prop where
  timer : s.timer.pc = .exited
  device : ∀ d < cfg.devices, (s.timer.device d).pc = .ended
  cpu : ∀ c < cfg.numCpus, (s.cpu c).pc = .stopped
  loader : s.loader.pc = .stopped

theorem Ended.no_statement (h : Ended cfg s) (hlab : lab.isStatement = true) :
    ¬ Step cfg Q s lab s' := by
  have hnot : ∀ d < cfg.devices, (s.timer.device d).pc ≠ .working := fun d hd hw => by
    cases hw.symm.trans (h.device d hd)
  intro hst
  cases hst with
  | cpu hc hw => exact hnot _ (device_lt cfg _) hw
  | loader hw => exact hnot _ loaderDevice_lt hw
  | cpuCall hc hcall hstep =>
    have ha := (CpuPc.call_eq hcall).imp And.left And.left
    exact hnot _ (device_lt cfg _) (timer_call ha hstep).2.1
  | loaderCall hcall hstep =>
    have ha := (LoaderPc.call_eq hcall).imp And.left And.left
    exact hnot _ loaderDevice_lt (timer_call ha hstep).2.1
  | @timer a t ha hstep =>
    cases a with
    | timer =>
      have hmove := Timer.timerRoutine_move hstep
      cases hmove with
      | lockEvent hpc => rcases hpc with hpc | hpc <;> cases hpc.symm.trans h.timer
      | stopped hpc | newSlot hpc | nextEvent hpc | allEvents hpc | sleep hpc | raised hpc
      | countFsh hpc | unlockEvent hpc | incTime hpc | nextTimer hpc | allTimers hpc
      | lockTimer hpc | clearDone hpc | signalTimer hpc | unlockTimer hpc | allEnded hpc
      | again hpc => cases hpc.symm.trans h.timer
    | device d =>
      obtain ⟨hd, hroutine⟩ := Option.ite_none_right_eq_some.mp hstep
      simp only [Timer.deviceRoutine, Option.map_eq_some_iff] at hroutine
      obtain ⟨t', ht', -⟩ := hroutine
      rw [Timer.Device.statement, h.device d hd] at ht'
      cases ht'
    | _ => cases hlab <;> cases ha

/-- Where no statement is left, all threads have ended. -/
theorem ended_of_stuck (hs : (system cfg Q).Reachable s) (hget : ∀ q, ∃ r q', Q.getProc q r q')
    (hstuck : ∀ lab s', lab.isStatement = true → ¬ Step cfg Q s lab s') : Ended cfg s := by
  have ht := threads_of_reachable hs
  have hidle : ∀ d < cfg.devices, (s.timer.device d).pc ≠ .working := by
    intro d hd hworking
    rcases device_cases hd with rfl | ⟨c, hc, rfl⟩
    · obtain ⟨lab, s', hlab, hst⟩ := ht.loader_move (Q := Q) hworking
      exact hstuck lab s' hlab hst
    · obtain ⟨r, q, hq⟩ := hget s.queue
      obtain ⟨lab, s', hst, -, hlab⟩ :=
        ht.cpu_move hc hworking ((loopInv_of_reachable hs).exec c hc) fun _ => hq
      exact hstuck lab s' hlab hst
  obtain ⟨hexited, hended⟩ := ht.timer_ended hidle hstuck
  have hin : ∀ d < cfg.devices, (s.timer.device d).pc.inDetach = true := fun d hd => by
    rw [hended d hd]
    rfl
  exact ⟨hexited, hended, fun c hc => (ht.cpu c hc).ended (hin _ (device_lt cfg c)),
    ht.loader.ended (hin _ loaderDevice_lt)⟩

/-- Whatever the ready queue does, as long as `get_proc` returns: a reachable state has
no statement left exactly if all threads have ended. -/
theorem stuck_iff (hs : (system cfg Q).Reachable s) (hget : ∀ q, ∃ r q', Q.getProc q r q') :
    (∀ lab s', lab.isStatement = true → ¬ Step cfg Q s lab s') ↔ Ended cfg s :=
  ⟨ended_of_stuck hs hget, fun h _ _ hlab => h.no_statement hlab⟩

theorem fifo_total (q : List ℕ) : ∃ r q', fifo.getProc q r q' :=
  ⟨_, _, rfl, rfl⟩

/-- One CPU and one program: all threads end. -/
theorem ended_oneInstruction : Ended oneInstruction (drive oneInstruction 98 (start fifo)).2 :=
  ⟨by decide +kernel, by decide +kernel, by decide +kernel, by decide +kernel⟩

/-- With the timer and a device asleep there is a statement to make; after 98 statements
there is none. -/
theorem stuck_iff_oneInstruction :
    ((drive oneInstruction 22 (start fifo)).2.timer.pc = .asleep ∧
      ((drive oneInstruction 22 (start fifo)).2.timer.device 0).pc = .asleep ∧
      ∃ lab s', lab.isStatement = true ∧
        Step oneInstruction fifo (drive oneInstruction 22 (start fifo)).2 lab s') ∧
    ∀ lab s', lab.isStatement = true →
      ¬ Step oneInstruction fifo (drive oneInstruction 98 (start fifo)).2 lab s' := by
  have hs : ∀ n, (system oneInstruction fifo).Reachable (drive oneInstruction n (start fifo)).2 :=
    fun n => ⟨_, _, rfl, run_of_drive oneInstruction n (start fifo)⟩
  have hasleep : (drive oneInstruction 22 (start fifo)).2.timer.pc = .asleep := by decide +kernel
  refine ⟨⟨hasleep, by decide +kernel, ?_⟩,
    (stuck_iff (hs 98) fifo_total).mpr ended_oneInstruction⟩
  by_contra hnone
  push Not at hnone
  cases hasleep.symm.trans ((stuck_iff (hs 22) fifo_total).mp hnone).timer

/-! ## The programs are added -/

/-- The run has come to its end, or has made more than `m` statements, apart from those
that spurious wake-ups cost. -/
def LongEnough (cfg : Config ι) (Q : ReadyQueue π) (m : ℕ) (tr : List (Label ι)) (s : State π) :
    Prop :=
  (∀ lab s', lab.isStatement = true → ¬ Step cfg Q s lab s') ∨
    m + 2 * tr.countP Label.spurious < tr.countP Label.isStatement

/-- The statements of a run with at most `k` ticks. -/
def Config.statementBound (cfg : Config ι) (k : ℕ) : ℕ :=
  Timer.slotLength cfg.devices + cfg.slotBound * (k + 1)

/-- A run that is long enough has ended, or has more than `k` ticks. -/
theorem LongEnough.ended_or_ticks {tr : List (Label ι)} {k : ℕ}
    (hget : ∀ q, ∃ r q', Q.getProc q r q') (hr : (system cfg Q).Run (start Q) tr s)
    (h : LongEnough cfg Q (cfg.statementBound k) tr s) :
    Ended cfg s ∨ ∃ j, k < j ∧
      ((system cfg Q).counted State.ticks).Run (start Q, 0) tr (s, j) := by
  refine h.imp (ended_of_stuck ⟨_, tr, rfl, hr⟩ hget) fun hlong => ?_
  obtain ⟨j, hj⟩ := hr.exists_counted State.ticks 0
  refine ⟨j, ?_, hj⟩
  by_contra hle
  have hmul := Nat.mul_le_mul_left cfg.slotBound (not_lt.mp hle)
  have hpaid := statements_le_pay (.init rfl) hj
  have hstart : (start Q).pay cfg ≤ Timer.slotLength cfg.devices + cfg.slotBound := pay_start
  rw [Config.statementBound, Nat.mul_succ] at hlong
  omega

/-- In every run that is long enough every program is added, in whatever order the CPUs
serve them. -/
theorem loaded_of_longEnough {tr : List (Label ι)} {i : ℕ}
    (hget : ∀ q, ∃ r q', Q.getProc q r q') (hr : (system cfg Q).Run (start Q) tr s)
    (hi : i < cfg.programs.length)
    (hlong : LongEnough cfg Q (cfg.statementBound (cfg.loadTick i)) tr s) :
    Label.add i ∈ tr := by
  have ht := threads_of_reachable ⟨_, tr, rfl, hr⟩
  rw [mem_add_iff hr i]
  rcases hlong.ended_or_ticks hget hr with hended | ⟨k, hk, hrk⟩
  · rwa [ht.counter.finished (.inr (.inr hended.loader))]
  · exact added_of_tick ht (loadInv_of_run hrk) hi hk

/-- Where all threads have ended the only program has been added. -/
theorem loaded_oneInstruction : Label.add 0 ∈ (drive oneInstruction 98 (start fifo)).1 := by
  have hlong : LongEnough oneInstruction fifo
      (oneInstruction.statementBound (oneInstruction.loadTick 0))
      (drive oneInstruction 98 (start fifo)).1 (drive oneInstruction 98 (start fifo)).2 :=
    .inl fun _ _ hlab => ended_oneInstruction.no_statement hlab
  exact loaded_of_longEnough fifo_total (run_of_drive oneInstruction 98 (start fifo)) Nat.one_pos
    hlong

end Os

end SimpleOs
