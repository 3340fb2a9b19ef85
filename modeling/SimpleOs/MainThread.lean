import SimpleOs.DevList
import SimpleOs.SlotProgress

/-!
# The thread of main

`main` attaches a device for each CPU and one for the loader, starts the timer, creates
the threads, waits for their ends in turn, and has `stop_timer` stop the timer and free
the devices. The threads run as in `Os`, with the devices in memory: they have pointers
to their devices, exist only once `main` has created them, and nothing but `main` keeps
a device allocated as long as they use it.

What `main` does before its first loop and the initialisation of the memories and the
scheduler, which no other thread can see, are left out.

Results:
1. `threads_refine`: whatever the interleaving, the threads do what the system of `Os`
   does, and no access to `dev_list` and the devices on it is undefined. What `get_proc`,
   `run` and `load` do with their own pointers is not part of this.
2. `stuck_iff_returned`: there is no deadlock, with `main` among the threads, and where
   `main` returns everything has ended and every device is freed.
-/

namespace SimpleOs

namespace Os

open LinkedList Timer

/-! ## State -/

/-- The position of `main`. -/
inductive MainPc
  | attachCpu (i : ℕ)
  | attachLoader
  | startTimer
  | createLoader
  | createCpu (i : ℕ)
  | joinCpu (i : ℕ)
  | joinLoader
  | stopTimer
  | joinTimer
  | freeContainers
  | returned
  deriving DecidableEq, Repr

/-- The timer thread has been created. -/
def MainPc.hasTimer : MainPc → Bool
  | .attachCpu _ | .attachLoader | .startTimer => false
  | _ => true

/-- The loader has been created. -/
def MainPc.hasLoader : MainPc → Bool
  | .attachCpu _ | .attachLoader | .startTimer | .createLoader => false
  | _ => true

/-- CPU `c` has been created. -/
def MainPc.hasCpu (c : ℕ) : MainPc → Bool
  | .attachCpu _ | .attachLoader | .startTimer | .createLoader => false
  | .createCpu i => c < i
  | _ => true

/-- The whole program: the devices in memory, the threads, and `main`. Thread `c` is CPU
`c`, and the thread behind the last CPU is the loader. -/
structure MainState (π : Type*) where
  mem : Mem
  cpu : ℕ → Cpu
  loader : Loader
  queue : π
  done : Bool
  pc : ℕ → ℕ
  main : MainPc

variable {ι π : Type*}

/-- The threads, with the timer `t`. -/
def MainState.threads (s : MainState π) (t : Timer.State) : State π :=
  ⟨t, s.cpu, s.loader, s.queue, s.done, s.pc⟩

/-- What `cpu_routine` and `ld_routine` see: of the timer its time only. -/
def MainState.view (s : MainState π) : State π :=
  s.threads { Timer.startTimer with time := s.mem.time }

/-- What they leave. -/
def MainState.put (s : MainState π) (u : State π) : MainState π :=
  { s with cpu := u.cpu, loader := u.loader, queue := u.queue, done := u.done, pc := u.pc }

/-- A step of `main` of its own, or a step that the system of `Os` has. -/
inductive MainLabel (ι : Type*)
  | main
  | thread (l : Label ι)

/-- The step of the system of `Os`. -/
def MainLabel.thread? : MainLabel ι → Option (Label ι)
  | .main => none
  | .thread l => some l

/-- The step is a statement: no spurious wake-up. -/
def MainLabel.isStatement : MainLabel ι → Bool
  | .main => true
  | .thread l => !l.spurious

/-! ## Steps -/

section Steps

variable (cfg : Config ι) (Q : ReadyQueue π) (malloc : Malloc TimerId)

/-- One statement of `main`; `none` where it waits for a thread or has returned. -/
def mainRoutine (s : MainState π) : Except Fault (Option (MainLabel ι × MainState π)) :=
  match s.main with
  | .attachCpu i =>
    if i < cfg.numCpus then
      .ok (some (.main, { s with main := .attachCpu (i + 1), mem := s.mem.attach malloc i }))
    else .ok (some (.main, { s with main := .attachLoader }))
  | .attachLoader =>
    .ok (some (.main,
      { s with main := .startTimer, mem := s.mem.attach malloc cfg.numCpus }))
  | .startTimer =>
    .ok (some (.main,
      { s with main := .createLoader, mem := { s.mem with timerStarted := true } }))
  | .createLoader => .ok (some (.main, { s with main := .createCpu 0 }))
  | .createCpu i =>
    if i < cfg.numCpus then .ok (some (.main, { s with main := .createCpu (i + 1) }))
    else .ok (some (.main, { s with main := .joinCpu 0 }))
  | .joinCpu i =>
    if i < cfg.numCpus then
      if s.mem.thread i = .ended then .ok (some (.main, { s with main := .joinCpu (i + 1) }))
      else .ok none
    else .ok (some (.main, { s with main := .joinLoader }))
  | .joinLoader =>
    if s.mem.thread cfg.numCpus = .ended then .ok (some (.main, { s with main := .stopTimer }))
    else .ok none
  | .stopTimer =>
    .ok (some (.thread (.timer .stopTimer),
      { s with main := .joinTimer, mem := { s.mem with timerStop := true } }))
  | .joinTimer =>
    if s.mem.pc = .exited then .ok (some (.main, { s with main := .freeContainers }))
    else .ok none
  | .freeContainers =>
    match s.mem.freeContainer with
    | .error e => .error e
    | .ok none => .ok (some (.main, { s with main := .returned }))
    | .ok (some mem) => .ok (some (.main, { s with mem := mem }))
  | .returned => .ok none

end Steps

/-- The steps of the other threads: those of `Os`, with the devices in memory. -/
inductive ThreadStep (cfg : Config ι) (Q : ReadyQueue π) :
    MainState π → Label ι → MainState π → Prop
  | cpu {s : MainState π} {u : State π} {c : ℕ} {r : Option ℕ} {q : π} {l : Label ι} :
      c < cfg.numCpus → s.main.hasCpu c = true → s.mem.thread c = .working →
      ((s.cpu c).pc.gets = true → Q.getProc s.queue r q) →
      cpuRoutine cfg Q s.view c r q = some (l, u) → ThreadStep cfg Q s l (s.put u)
  | cpuCall {s : MainState π} {c : ℕ} {a : Timer.Act} {pc : CpuPc} {mem : Mem} :
      c < cfg.numCpus → s.main.hasCpu c = true → (s.cpu c).pc.call c = some (a, pc) →
      s.mem.step a = .ok (some mem) →
      ThreadStep cfg Q s (.timer (a.byPosition cfg.devices))
        { s with cpu := Function.update s.cpu c { s.cpu c with pc := pc }, mem := mem }
  | loader {s : MainState π} {u : State π} {l : Label ι} :
      s.main.hasLoader = true → s.mem.thread cfg.numCpus = .working →
      ldRoutine cfg Q s.view = some (l, u) → ThreadStep cfg Q s l (s.put u)
  | loaderCall {s : MainState π} {a : Timer.Act} {pc : LoaderPc} {mem : Mem} :
      s.main.hasLoader = true → s.loader.pc.call cfg.numCpus = some (a, pc) →
      s.mem.step a = .ok (some mem) →
      ThreadStep cfg Q s (.timer (a.byPosition cfg.devices))
        { s with loader := ⟨pc, s.loader.i⟩, mem := mem }
  | timer {s : MainState π} {a : Timer.Act} {mem : Mem} :
      s.main.hasTimer = true → a.isCall = false → a.within cfg.devices →
      s.mem.step a = .ok (some mem) →
      ThreadStep cfg Q s (.timer (a.byPosition cfg.devices)) { s with mem := mem }

/-- The steps of the whole program. -/
inductive MainStep (cfg : Config ι) (Q : ReadyQueue π) (malloc : Malloc TimerId) :
    MainState π → MainLabel ι → MainState π → Prop
  | main {s s' : MainState π} {l : MainLabel ι} :
      mainRoutine cfg malloc s = .ok (some (l, s')) → MainStep cfg Q malloc s l s'
  | thread {s s' : MainState π} {l : Label ι} :
      ThreadStep cfg Q s l s' → MainStep cfg Q malloc s (.thread l) s'

/-- The state in which `main` is at its first loop; `timerId` is what the memory holds in
the pointers. -/
def mainStart (Q : ReadyQueue π) (timerId : ℕ → Option ℕ) : MainState π where
  mem := { heap := fun _ => none, devList := none, time := 0, timerStarted := false,
           timerStop := false, pc := .whileStop, temp := none, fsh := 0, event := 0,
           timerId := timerId, thread := fun _ => .working }
  cpu := fun _ => ⟨.top, none, 0⟩
  loader := ⟨.whileLoad, 0⟩
  queue := Q.empty
  done := false
  pc := fun _ => 0
  main := .attachCpu 0

/-- The whole program. -/
def mainSystem (cfg : Config ι) (Q : ReadyQueue π) (malloc : Malloc TimerId) :
    Lts (MainState π) (MainLabel ι) where
  init s := ∃ timerId, s = mainStart Q timerId
  step := MainStep cfg Q malloc

/-- A mutex of the container is locked, or a thread waits on a condition variable of it. -/
def InUse (n : ℕ) (s : Mem) (a : ℕ) (id : TimerId) : Prop :=
  id.eventLock ≠ none ∨ id.timerLock ≠ none ∨ s.pc = .asleep ∧ s.temp = some a ∨
    ∃ i < n, s.timerId i = some a ∧ s.thread i = .asleep

/-- Some thread is at a statement on `dev_list` or a device without a defined behaviour:
`dev_list`, `temp` or a `timer_id` is null or leads to no container where it is followed,
or `main` destroys what is in use. -/
inductive Undefined (cfg : Config ι) (malloc : Malloc TimerId) (s : MainState π) : Prop
  | main {e : Fault} : mainRoutine cfg malloc s = .error e → Undefined cfg malloc s
  | thread {a : Timer.Act} {e : Fault} : s.main.hasTimer = true → a.within cfg.devices →
      s.mem.step a = .error e → Undefined cfg malloc s
  | destroy {a : ℕ} {node : Node TimerId} : s.main = .freeContainers → s.mem.devList = some a →
      s.mem.heap a = some node → InUse cfg.devices s.mem a node.val → Undefined cfg malloc s

section Proofs

variable {cfg : Config ι} {Q : ReadyQueue π} {malloc : Malloc TimerId} {s s' : MainState π}
  {t : Timer.State} {lab : Label ι}

/-! ## The threads with the timer and without it -/

/-- `cpu_routine` does not look at the timer. -/
theorem cpuRoutine_timer (u : State π) (c : ℕ) (r : Option ℕ) (q : π) :
    cpuRoutine cfg Q { u with timer := t } c r q =
      (cpuRoutine cfg Q u c r q).map fun res => (res.1, { res.2 with timer := t }) := by
  unfold cpuRoutine
  cases hpc : (u.cpu c).pc with
  | top =>
    cases hproc : (u.cpu c).proc with
    | none => simp [hpc, hproc, State.setCpu]
    | some p =>
      simp only [hpc, hproc]
      split
      · rfl
      · split <;> rfl
  | recheck =>
    cases hproc : (u.cpu c).proc with
    | none =>
      simp only [hpc, hproc]
      split <;> rfl
    | some p => simp [hpc, hproc, State.setCpu]
  | exec => cases hproc : (u.cpu c).proc <;> simp [hpc, hproc, State.setCpu]
  | _ => simp [hpc, State.setCpu]

/-- `ld_routine` looks at the time. -/
theorem ldRoutine_timer (u : State π) (htime : t.time = u.timer.time) :
    ldRoutine cfg Q { u with timer := t } =
      (ldRoutine cfg Q u).map fun res => (res.1, { res.2 with timer := t }) := by
  unfold ldRoutine
  cases hpc : u.loader.pc with
  | whileLoad =>
    dsimp only
    split <;> rfl
  | waitStart =>
    simp only [htime]
    split <;> rfl
  | _ => rfl

theorem cpuRoutine_threads (c : ℕ) (r : Option ℕ) (q : π) :
    cpuRoutine cfg Q (s.threads t) c r q =
      (cpuRoutine cfg Q s.view c r q).map fun res => (res.1, (s.put res.2).threads t) :=
  cpuRoutine_timer s.view c r q

theorem ldRoutine_threads (htime : s.mem.time = t.time) :
    ldRoutine cfg Q (s.threads t) =
      (ldRoutine cfg Q s.view).map fun res => (res.1, (s.put res.2).threads t) :=
  ldRoutine_timer s.view htime.symm

theorem loaderDevice_eq_position : position cfg.devices cfg.numCpus = Config.loaderDevice := by
  simp [position, Config.devices, Config.loaderDevice]

/-- The call of a CPU, by position. -/
theorem CpuPc.call_byPosition (pc : CpuPc) (c : ℕ) :
    pc.call (cfg.device c) =
      (pc.call c).map fun call => (call.1.byPosition cfg.devices, call.2) := by
  cases pc <;> rfl

theorem LoaderPc.call_byPosition (pc : LoaderPc) :
    pc.call Config.loaderDevice =
      (pc.call cfg.numCpus).map fun call => (call.1.byPosition cfg.devices, call.2) := by
  cases pc <;> first | rfl | simp [LoaderPc.call, Act.byPosition, loaderDevice_eq_position]

/-! ## The threads refine the system -/

theorem temp_lt (hs : (system cfg Q).Reachable (s.threads t)) :
    t.pc.inBody = true → t.temp < cfg.devices :=
  (countInv_of_reachable (timer_reachable hs)).temp_lt

/-- A step of a thread with its pointer is its step in the system. -/
theorem ThreadStep.refines (hst : ThreadStep cfg Q s lab s')
    (hs : (system cfg Q).Reachable (s.threads t)) (h : Represents cfg.devices s.mem t) :
    s'.main = s.main ∧ ∃ t', Step cfg Q (s.threads t) lab (s'.threads t') ∧
      Represents cfg.devices s'.mem t' := by
  have htime : s.mem.time = t.time := by
    obtain ⟨_, hcells⟩ := h
    exact hcells.time
  cases hst with
  | @cpu u c r q _ hc hcreated hw hget hroutine =>
    refine ⟨rfl, t, .cpu hc ((h.thread (Nat.lt_succ_of_lt hc)).trans hw) hget ?_, h⟩
    rw [cpuRoutine_threads, hroutine]
    rfl
  | @loader u _ hcreated hw hroutine =>
    have hworking := (h.thread (Nat.lt_succ_self cfg.numCpus)).trans hw
    rw [loaderDevice_eq_position] at hworking
    refine ⟨rfl, t, .loader hworking ?_, h⟩
    rw [ldRoutine_threads htime, hroutine]
    rfl
  | @cpuCall c a pc mem hc hcreated hcall hmem =>
    have hwithin : a.within cfg.devices := by
      rcases CpuPc.call_eq hcall with ⟨rfl, -⟩ | ⟨rfl, -⟩ <;> exact Nat.lt_succ_of_lt hc
    obtain ⟨t', ht', hrep⟩ := h.step_some (temp_lt hs) hwithin hmem
    refine ⟨rfl, t', .cpuCall hc ?_ ht', hrep⟩
    rw [CpuPc.call_byPosition]
    exact Option.map_eq_some_iff.mpr ⟨_, hcall, rfl⟩
  | @loaderCall a pc mem hcreated hcall hmem =>
    have hwithin : a.within cfg.devices := by
      rcases LoaderPc.call_eq hcall with ⟨rfl, -⟩ | ⟨rfl, -⟩ <;> exact Nat.lt_succ_self _
    obtain ⟨t', ht', hrep⟩ := h.step_some (temp_lt hs) hwithin hmem
    refine ⟨rfl, t', .loaderCall ?_ ht', hrep⟩
    rw [LoaderPc.call_byPosition]
    exact Option.map_eq_some_iff.mpr ⟨_, hcall, rfl⟩
  | @timer a mem hcreated hcall hwithin hmem =>
    obtain ⟨t', ht', hrep⟩ := h.step_some (temp_lt hs) hwithin hmem
    refine ⟨rfl, t', .timer ?_ ht', hrep⟩
    cases a <;> exact hcall

/-- Threads that have been created take the steps that they have in the system. -/
theorem ThreadStep.of_step (hs : (system cfg Q).Reachable (s.threads t))
    (h : Represents cfg.devices s.mem t) (htimer : s.main.hasTimer = true)
    (hloader : s.main.hasLoader = true) (hcpu : ∀ c, s.main.hasCpu c = true) {u : State π}
    (hst : Step cfg Q (s.threads t) lab u) (hlab : lab.isStatement = true) :
    ∃ s', ThreadStep cfg Q s lab s' := by
  have htime : s.mem.time = t.time := by
    obtain ⟨_, hcells⟩ := h
    exact hcells.time
  cases hst with
  | @cpu u c r q _ hc hw hget hroutine =>
    rw [cpuRoutine_threads, Option.map_eq_some_iff] at hroutine
    obtain ⟨⟨_, u'⟩, hroutine, heq⟩ := hroutine
    cases heq
    exact ⟨_, .cpu hc (hcpu c) ((h.thread (Nat.lt_succ_of_lt hc)).symm.trans hw) hget hroutine⟩
  | @loader u _ hw hroutine =>
    rw [ldRoutine_threads htime, Option.map_eq_some_iff] at hroutine
    obtain ⟨⟨_, u'⟩, hroutine, heq⟩ := hroutine
    cases heq
    rw [← @loaderDevice_eq_position _ cfg] at hw
    exact ⟨_, .loader hloader ((h.thread (Nat.lt_succ_self _)).symm.trans hw) hroutine⟩
  | @cpuCall c a pc t' hc hcall ht =>
    rw [CpuPc.call_byPosition, Option.map_eq_some_iff] at hcall
    obtain ⟨⟨a', _⟩, hcall, heq⟩ := hcall
    cases heq
    have hwithin : a'.within cfg.devices := by
      rcases CpuPc.call_eq hcall with ⟨rfl, -⟩ | ⟨rfl, -⟩ <;> exact Nat.lt_succ_of_lt hc
    obtain ⟨mem, hmem⟩ := h.exists_step (temp_lt hs) hwithin ht
    exact ⟨_, .cpuCall hc (hcpu c) hcall hmem⟩
  | @loaderCall a pc t' hcall ht =>
    rw [@LoaderPc.call_byPosition _ cfg, Option.map_eq_some_iff] at hcall
    obtain ⟨⟨a', _⟩, hcall, heq⟩ := hcall
    cases heq
    have hwithin : a'.within cfg.devices := by
      rcases LoaderPc.call_eq hcall with ⟨rfl, -⟩ | ⟨rfl, -⟩ <;> exact Nat.lt_succ_self _
    obtain ⟨mem, hmem⟩ := h.exists_step (temp_lt hs) hwithin ht
    exact ⟨_, .loaderCall hloader hcall hmem⟩
  | @timer a t' hcall ht =>
    obtain ⟨a', hwithin, hcall', rfl⟩ : ∃ a' : Act, a'.within cfg.devices ∧
        a'.isCall = false ∧ a'.byPosition cfg.devices = a := by
      cases a with
      | timer => exact ⟨.timer, trivial, rfl, rfl⟩
      | device d =>
        obtain ⟨hd, -⟩ := Option.ite_none_right_eq_some.mp ht
        exact ⟨.device (position cfg.devices d), position_lt hd, rfl,
          congrArg Act.device (position_position hd)⟩
      | nextSlot d | detachEvent d => cases hcall
      | wakeTimer | wakeDevice d | stopTimer => cases hlab
    obtain ⟨mem, hmem⟩ := h.exists_step (temp_lt hs) hwithin ht
    exact ⟨_, .timer htimer hcall' hwithin hmem⟩

/-! ## The phases of main -/

/-- `k` devices are attached, and nothing else has happened. -/
structure Attaching (s : MainState π) (t : Timer.State) (k : ℕ) : Prop where
  start : t = Timer.startTimer
  started : s.mem.timerStarted = false
  thread : ∀ i, s.mem.thread i = .working
  mem : Represents k s.mem t

/-- The devices in memory are those of the timer, and the first `k` threads have
ended. -/
structure Running (cfg : Config ι) (s : MainState π) (t : Timer.State) (k : ℕ) : Prop where
  mem : Represents cfg.devices s.mem t
  ended : ∀ i < k, s.mem.thread i = .ended

/-- All threads have ended, and the devices that are left in memory are not in use. -/
structure Freeing (cfg : Config ι) (s : MainState π) (t : Timer.State)
    (cells : List (ℕ × TimerId)) : Prop where
  ended : Ended cfg (s.threads t)
  exited : s.mem.pc = .exited
  thread : ∀ i < cfg.devices, s.mem.thread i = .ended
  left : Left s.mem cells
  unlocked : ∀ cell ∈ cells, cell.2.eventLock = none ∧ cell.2.timerLock = none

/-- What holds where `main` is. -/
def Phase (cfg : Config ι) (s : MainState π) (t : Timer.State) : MainPc → Prop
  | .attachCpu k => k ≤ cfg.numCpus ∧ Attaching s t k
  | .attachLoader => Attaching s t cfg.numCpus
  | .startTimer => Attaching s t cfg.devices
  | .createLoader | .createCpu _ => Running cfg s t 0
  | .joinCpu k => k ≤ cfg.numCpus ∧ Running cfg s t k
  | .joinLoader => Running cfg s t cfg.numCpus
  | .stopTimer | .joinTimer => Running cfg s t cfg.devices
  | .freeContainers => ∃ cells, Freeing cfg s t cells
  | .returned => Freeing cfg s t []

/-- The threads with the timer `t` are in a reachable state of the system, and `main` is
where they are. -/
structure MainInv (cfg : Config ι) (Q : ReadyQueue π) (s : MainState π) (t : Timer.State) :
    Prop where
  reachable : (system cfg Q).Reachable (s.threads t)
  phase : Phase cfg s t s.main

/-- No thread exists before the timer is started. -/
theorem ThreadStep.hasTimer (hst : ThreadStep cfg Q s lab s') : s.main.hasTimer = true := by
  have hof : ∀ c, s.main.hasCpu c = true ∨ s.main.hasLoader = true → s.main.hasTimer = true := by
    intro c h
    cases hmain : s.main <;> rw [hmain] at h <;>
      first | rfl | exact absurd h (by simp [MainPc.hasCpu, MainPc.hasLoader])
  cases hst with
  | cpu hc hcreated | cpuCall hc hcreated => exact hof _ (.inl hcreated)
  | loader hcreated | loaderCall hcreated => exact hof 0 (.inr hcreated)
  | timer hcreated => exact hcreated

/-- Where the timer exists, the devices stand, and what else holds is not about the
threads that run, or all threads have ended. -/
theorem Phase.of_hasTimer (h : Phase cfg s t s.main) (htimer : s.main.hasTimer = true) :
    (∃ k ≤ cfg.devices, Running cfg s t k ∧
      ∀ (s' : MainState π) (t' : Timer.State), Running cfg s' t' k → Phase cfg s' t' s.main) ∨
    ∃ cells, Freeing cfg s t cells := by
  cases hmain : s.main with
  | attachCpu i | attachLoader | startTimer =>
    rw [hmain] at htimer
    cases htimer
  | createLoader | createCpu i =>
    rw [hmain] at h
    exact .inl ⟨0, Nat.zero_le _, h, fun _ _ h' => h'⟩
  | joinCpu i =>
    rw [hmain] at h
    exact .inl ⟨i, h.1.trans (Nat.le_succ _), h.2, fun _ _ h' => ⟨h.1, h'⟩⟩
  | joinLoader =>
    rw [hmain] at h
    exact .inl ⟨_, Nat.le_succ _, h, fun _ _ h' => h'⟩
  | stopTimer | joinTimer =>
    rw [hmain] at h
    exact .inl ⟨_, le_rfl, h, fun _ _ h' => h'⟩
  | freeContainers =>
    rw [hmain] at h
    exact .inr h
  | returned =>
    rw [hmain] at h
    exact .inr ⟨_, h⟩

/-- Where all threads have ended no thread makes a step. -/
theorem Freeing.no_step {cells : List (ℕ × TimerId)} (h : Freeing cfg s t cells) :
    ¬ ThreadStep cfg Q s lab s' := by
  have hnot : ∀ i < cfg.devices, s.mem.thread i ≠ .working := fun i hi hw => by
    cases hw.symm.trans (h.thread i hi)
  have hstep : ∀ a mem, Act.within cfg.devices a → s.mem.step a ≠ .ok (some mem) := by
    intro a mem ha heq
    cases heq.symm.trans (step_of_ended h.exited h.thread ha)
  intro hst
  cases hst with
  | cpu hc hcreated hw => exact hnot _ (Nat.lt_succ_of_lt hc) hw
  | loader hcreated hw => exact hnot _ (Nat.lt_succ_self _) hw
  | cpuCall hc hcreated hcall hmem =>
    refine hstep _ _ ?_ hmem
    rcases CpuPc.call_eq hcall with ⟨rfl, -⟩ | ⟨rfl, -⟩ <;> exact Nat.lt_succ_of_lt hc
  | loaderCall hcreated hcall hmem =>
    refine hstep _ _ ?_ hmem
    rcases LoaderPc.call_eq hcall with ⟨rfl, -⟩ | ⟨rfl, -⟩ <;> exact Nat.lt_succ_self _
  | timer hcreated hcall hwithin hmem => exact hstep _ _ hwithin hmem

/-- Threads that have ended stay so while the others go on. -/
theorem Running.threadStep {k : ℕ} (h : Running cfg s t k) (hk : k ≤ cfg.devices)
    (hs : (system cfg Q).Reachable (s.threads t)) (hst : ThreadStep cfg Q s lab s') :
    s'.main = s.main ∧
      ∃ t', Step cfg Q (s.threads t) lab (s'.threads t') ∧ Running cfg s' t' k := by
  obtain ⟨hmain, t', hstep, hmem⟩ := hst.refines hs h.mem
  refine ⟨hmain, t', hstep, hmem, fun i hi => ?_⟩
  have hlt := hi.trans_le hk
  have hended := (h.mem.thread hlt).trans (h.ended i hi)
  rw [← hmem.thread hlt]
  rcases step_timer hstep with ⟨-, heq⟩ | ⟨a, -, ht⟩
  · rw [show t' = t from heq]
    exact hended
  · exact step_ended ht (position_lt hlt) hended

/-- One more device is attached. -/
theorem Attaching.attach {k : ℕ} {pc : MainPc} (malloc : Malloc TimerId) (h : Attaching s t k) :
    Attaching { s with main := pc, mem := s.mem.attach malloc k } t (k + 1) := by
  obtain ⟨rfl, hstarted, hthread, cells, hcells⟩ := h
  obtain ⟨hstarted', hthread', cells', hcells'⟩ := hcells.attach malloc hstarted (hthread k)
  exact ⟨rfl, hstarted', fun i => by rw [hthread']; exact hthread i, cells', hcells'⟩

/-- Once all threads have ended and the timer has left its loop, the devices are in use
no more. -/
theorem Running.freeing (h : Running cfg s t cfg.devices)
    (hs : (system cfg Q).Reachable (s.threads t)) (hexited : s.mem.pc = .exited) :
    ∃ cells, Freeing cfg { s with main := .freeContainers } t cells := by
  have ht := threads_of_reachable hs
  obtain ⟨cells, hcells⟩ := h.mem
  have hexited' : t.pc = .exited := hcells.pc.symm.trans hexited
  have hdevice : ∀ d < cfg.devices, (t.device d).pc = .ended := by
    intro d hd
    have hended := (hcells.thread (position_lt hd)).trans (h.ended _ (position_lt hd))
    rwa [position_position hd] at hended
  have hin : ∀ d < cfg.devices, (t.device d).pc.inDetach = true := fun d hd => by
    rw [hdevice d hd]
    rfl
  refine ⟨cells, ⟨hexited', hdevice, fun c hc => (ht.cpu c hc).ended (hin _ (device_lt cfg c)),
    ht.loader.ended (hin _ loaderDevice_lt)⟩, hexited, h.ended, ⟨hcells.linked, hcells.only⟩, ?_⟩
  rintro ⟨a, id⟩ hmem
  obtain ⟨d, hcell⟩ := List.mem_iff_getElem?.mp hmem
  have hd : d < cfg.devices := hcells.length ▸ (List.getElem?_eq_some_iff.mp hcell).1
  have hfree : (t.device d).eventLock = none ∧ (t.device d).timerLock = none :=
    unlocked ht.timer hd hexited' (hdevice d hd)
  rwa [show t.device d = _ from (hcells.own d a id hcell).2] at hfree

/-- A statement of `main` is none of the system, or the store of `stop_timer`. -/
theorem MainInv.mainRoutine {l : MainLabel ι} (h : MainInv cfg Q s t)
    (hm : mainRoutine cfg malloc s = .ok (some (l, s'))) :
    ∃ t', (system cfg Q).Run (s.threads t) l.thread?.toList (s'.threads t') ∧
      Phase cfg s' t' s'.main := by
  have hphase := h.phase
  unfold Os.mainRoutine at hm
  cases hmain : s.main with
  | attachCpu i =>
    rw [hmain] at hm hphase
    dsimp only at hm
    split at hm
    · next hi =>
      cases hm
      exact ⟨t, .nil, hi, hphase.2.attach malloc⟩
    · next hi =>
      cases hm
      have hi' : i = cfg.numCpus := le_antisymm hphase.1 (not_lt.mp hi)
      obtain ⟨hstart, hstarted, hthread, hmem⟩ := hi' ▸ hphase.2
      exact ⟨t, .nil, hstart, hstarted, hthread, hmem⟩
  | attachLoader =>
    rw [hmain] at hm hphase
    cases hm
    exact ⟨t, .nil, Attaching.attach malloc hphase⟩
  | startTimer =>
    rw [hmain] at hm hphase
    cases hm
    obtain ⟨-, -, -, cells, hcells⟩ := hphase
    exact ⟨t, .nil, ⟨cells, { hcells with time := hcells.time }⟩, fun i hi => by cases hi⟩
  | createLoader =>
    rw [hmain] at hm hphase
    cases hm
    exact ⟨t, .nil, hphase.mem, hphase.ended⟩
  | createCpu i =>
    rw [hmain] at hm hphase
    dsimp only at hm
    split at hm
    · cases hm
      exact ⟨t, .nil, hphase.mem, hphase.ended⟩
    · cases hm
      exact ⟨t, .nil, Nat.zero_le _, hphase.mem, hphase.ended⟩
  | joinCpu i =>
    rw [hmain] at hm hphase
    obtain ⟨hle, hrun⟩ := hphase
    dsimp only at hm
    split at hm
    · next hi =>
      split at hm
      · next hended =>
        cases hm
        refine ⟨t, .nil, hi, hrun.mem, fun j hj => ?_⟩
        rcases Nat.lt_succ_iff_lt_or_eq.mp hj with hlt | rfl
        · exact hrun.ended j hlt
        · exact hended
      · cases hm
    · next hi =>
      cases hm
      have hi' : i = cfg.numCpus := le_antisymm hle (not_lt.mp hi)
      exact ⟨t, .nil, hrun.mem, hi' ▸ hrun.ended⟩
  | joinLoader =>
    rw [hmain] at hm hphase
    dsimp only at hm
    split at hm
    · next hended =>
      cases hm
      refine ⟨t, .nil, hphase.mem, fun j hj => ?_⟩
      rcases Nat.lt_succ_iff_lt_or_eq.mp hj with hlt | rfl
      · exact hphase.ended j hlt
      · exact hended
    · cases hm
  | stopTimer =>
    rw [hmain] at hm hphase
    cases hm
    obtain ⟨⟨cells, hcells⟩, hended⟩ := hphase
    have hdevice : ∀ d < cfg.devices, (t.device d).pc = .ended := by
      intro d hd
      have hdone := (hcells.thread (position_lt hd)).trans (hended _ (position_lt hd))
      rwa [position_position hd] at hdone
    refine ⟨{ t with timerStop := true }, .snoc .nil (.timer rfl (if_pos hdevice)), ?_, hended⟩
    exact ⟨cells, { hcells with timerStop := rfl }⟩
  | joinTimer =>
    rw [hmain] at hm hphase
    dsimp only at hm
    split at hm
    · next hexited =>
      cases hm
      exact ⟨t, .nil, hphase.freeing h.reachable hexited⟩
    · cases hm
  | freeContainers =>
    rw [hmain] at hm hphase
    obtain ⟨cells, hfreeing⟩ := hphase
    dsimp only at hm
    cases cells with
    | nil =>
      rw [hfreeing.left.nil.1] at hm
      cases hm
      exact ⟨t, .nil, hfreeing.ended, hfreeing.exited, hfreeing.thread, hfreeing.left,
        hfreeing.unlocked⟩
    | cons cell cells =>
      obtain ⟨next, -, -, hcall, hleft⟩ := hfreeing.left.freeContainer
      rw [hcall] at hm
      cases hm
      exact ⟨t, .nil, cells, hfreeing.ended, hfreeing.exited, hfreeing.thread, hleft,
        fun cell' hmem => hfreeing.unlocked cell' (List.mem_cons_of_mem _ hmem)⟩
  | returned =>
    rw [hmain] at hm
    cases hm

/-- Every step of the program is a step of the system, or none. -/
theorem MainInv.step {l : MainLabel ι} (h : MainInv cfg Q s t)
    (hst : MainStep cfg Q malloc s l s') :
    ∃ t', (system cfg Q).Run (s.threads t) l.thread?.toList (s'.threads t') ∧
      MainInv cfg Q s' t' := by
  cases hst with
  | main hm =>
    obtain ⟨t', hr, hphase⟩ := h.mainRoutine hm
    exact ⟨t', hr, h.reachable.run hr, hphase⟩
  | thread hst =>
    rcases h.phase.of_hasTimer hst.hasTimer with ⟨k, hk, hrun, hback⟩ | ⟨cells, hfreeing⟩
    · obtain ⟨hmain, t', hstep, hrun'⟩ := hrun.threadStep hk h.reachable hst
      refine ⟨t', .snoc .nil hstep, h.reachable.step hstep, ?_⟩
      rw [hmain]
      exact hback s' t' hrun'
    · exact absurd hst hfreeing.no_step

/-- Every run of the program is a run of the system. -/
theorem run_mainInv {s₀ : MainState π} {tr : List (MainLabel ι)}
    (h₀ : (mainSystem cfg Q malloc).init s₀) (hr : (mainSystem cfg Q malloc).Run s₀ tr s) :
    ∃ t, (system cfg Q).Run (start Q) (tr.filterMap MainLabel.thread?) (s.threads t) ∧
      MainInv cfg Q s t := by
  refine hr.trace_invariant (I := fun tr s => ∃ t,
    (system cfg Q).Run (start Q) (tr.filterMap MainLabel.thread?) (s.threads t) ∧
      MainInv cfg Q s t) ?_ ?_
  · obtain ⟨timerId, rfl⟩ := h₀
    refine ⟨Timer.startTimer, .nil, .init rfl, Nat.zero_le _, rfl, rfl, fun _ => rfl, [], ?_⟩
    refine ⟨⟨linked_nil_iff.mpr rfl, rfl, fun d a id hd => ?_, fun a ha => absurd rfl ha⟩, rfl, rfl,
      rfl, rfl, rfl, fun hpc => absurd rfl hpc⟩
    cases hd
  · rintro tr s l s' - ⟨t, hrt, hinv⟩ hst
    obtain ⟨t', hrun, hinv'⟩ := hinv.step hst
    refine ⟨t', ?_, hinv'⟩
    have hlabels : (tr ++ [l]).filterMap MainLabel.thread? =
        tr.filterMap MainLabel.thread? ++ l.thread?.toList := by
      rw [List.filterMap_append]
      cases l <;> rfl
    rw [hlabels]
    exact hrt.append hrun

/-! ## No statement is undefined -/

/-- What `main` waits for. -/
def Waits (cfg : Config ι) (s : MainState π) : MainPc → Prop
  | .joinCpu i => i < cfg.numCpus ∧ s.mem.thread i ≠ .ended
  | .joinLoader => s.mem.thread cfg.numCpus ≠ .ended
  | .joinTimer => s.mem.pc ≠ .exited
  | .returned => True
  | _ => False

/-- `main` itself follows no pointer but to a container: it makes a statement, waits, or
has returned. -/
theorem MainInv.main_cases (h : MainInv cfg Q s t) :
    (∃ l s', l.isStatement = true ∧ Os.mainRoutine cfg malloc s = .ok (some (l, s'))) ∨
    Os.mainRoutine cfg malloc s = .ok none ∧ Waits cfg s s.main := by
  have hphase := h.phase
  unfold Os.mainRoutine
  cases hmain : s.main with
  | attachCpu i | createCpu i =>
    dsimp only
    split <;> exact .inl ⟨_, _, rfl, rfl⟩
  | joinCpu i =>
    dsimp only
    split
    · next hi =>
      split
      · exact .inl ⟨_, _, rfl, rfl⟩
      · next hnot => exact .inr ⟨rfl, hi, hnot⟩
    · exact .inl ⟨_, _, rfl, rfl⟩
  | joinLoader | joinTimer =>
    dsimp only
    split
    · exact .inl ⟨_, _, rfl, rfl⟩
    · next hnot => exact .inr ⟨rfl, hnot⟩
  | attachLoader | startTimer | createLoader | stopTimer => exact .inl ⟨_, _, rfl, rfl⟩
  | returned => exact .inr ⟨rfl, trivial⟩
  | freeContainers =>
    rw [hmain] at hphase
    obtain ⟨cells, hfreeing⟩ := hphase
    cases cells with
    | nil =>
      dsimp only
      rw [hfreeing.left.nil.1]
      exact .inl ⟨_, _, rfl, rfl⟩
    | cons cell cells =>
      obtain ⟨next, -, -, hcall, -⟩ := hfreeing.left.freeContainer
      dsimp only
      rw [hcall]
      exact .inl ⟨_, _, rfl, rfl⟩

theorem MainInv.not_undefined (h : MainInv cfg Q s t) : ¬ Undefined cfg malloc s := by
  rintro (@⟨e, hm⟩ | @⟨a, e, htimer, hwithin, hmem⟩ | @⟨a, node, hmain, hhead, hnode, huse⟩)
  · rcases h.main_cases with ⟨l, s', -, hok⟩ | ⟨hok, -⟩ <;> cases hok.symm.trans hm
  · rcases h.phase.of_hasTimer htimer with ⟨k, -, hrun, -⟩ | ⟨cells, hfreeing⟩
    · obtain ⟨r, hr, -⟩ := hrun.mem.step (temp_lt h.reachable) hwithin
      cases hr.symm.trans hmem
    · cases (step_of_ended hfreeing.exited hfreeing.thread hwithin).symm.trans hmem
  · have hphase := h.phase
    rw [hmain] at hphase
    obtain ⟨cells, hfreeing⟩ := hphase
    cases cells with
    | nil => cases (linked_nil_iff.mp hfreeing.left.linked).symm.trans hhead
    | cons cell cells =>
      obtain ⟨b, id⟩ := cell
      obtain ⟨next, hcell, hhead', -⟩ := hfreeing.left.freeContainer
      cases hhead.symm.trans hhead'
      cases hnode.symm.trans hcell
      obtain ⟨hevent, htimer⟩ := hfreeing.unlocked _ List.mem_cons_self
      rcases huse with hlock | hlock | ⟨hasleep, -⟩ | ⟨i, hi, -, hasleep⟩
      · exact hlock hevent
      · exact hlock htimer
      · cases hasleep.symm.trans hfreeing.exited
      · cases hasleep.symm.trans (hfreeing.thread i hi)

/-- The list of the devices is complete and has not been touched yet. -/
def MainPc.stands : MainPc → Bool
  | .attachCpu _ | .attachLoader | .startTimer | .freeContainers | .returned => false
  | _ => true

/-- Whatever the interleaving and wherever the devices are allocated: in every run no
thread gets to an undefined access to a device, and what the threads do is a run of the
system, of whose timer the memory holds the devices as long as the list of them stands. -/
theorem threads_refine {s₀ : MainState π} {tr : List (MainLabel ι)}
    (h₀ : (mainSystem cfg Q malloc).init s₀) (hr : (mainSystem cfg Q malloc).Run s₀ tr s) :
    ¬ Undefined cfg malloc s ∧
    ∃ t, (system cfg Q).Run (start Q) (tr.filterMap MainLabel.thread?) (s.threads t) ∧
      (s.main.stands = true → Represents cfg.devices s.mem t) := by
  obtain ⟨t, hrun, hinv⟩ := run_mainInv h₀ hr
  refine ⟨hinv.not_undefined, t, hrun, fun hstands => ?_⟩
  have hphase := hinv.phase
  cases hmain : s.main with
  | createLoader | createCpu i | joinLoader | stopTimer | joinTimer =>
    rw [hmain] at hphase
    exact hphase.mem
  | joinCpu i =>
    rw [hmain] at hphase
    exact hphase.2.mem
  | attachCpu i | attachLoader | startTimer | freeContainers | returned =>
    rw [hmain] at hstands
    cases hstands

/-- Behind `start_timer` the devices of the CPU and of the loader are in memory. -/
theorem threads_refine_oneProgram :
    ∃ (s : MainState (List ℕ)) (t : Timer.State), s.main = .createLoader ∧
      ¬ Undefined oneProgram .least s ∧ Represents oneProgram.devices s.mem t := by
  have h₀ : (mainSystem oneProgram fifo .least).init (mainStart fifo fun _ => none) := ⟨_, rfl⟩
  have hnil : (mainSystem oneProgram fifo .least).Run (mainStart fifo fun _ => none) [] _ := .nil
  -- A device for the CPU, the end of the loop, a device for the loader, and the timer.
  have hcpu := hnil.snoc (.main rfl)
  have hloop := hcpu.snoc (.main rfl)
  have hloader := hloop.snoc (.main rfl)
  have hr := hloader.snoc (.main rfl)
  obtain ⟨hdefined, t, -, hrep⟩ := threads_refine h₀ hr
  exact ⟨_, t, rfl, hdefined, hrep rfl⟩

/-! ## No deadlock -/

/-- Where all threads have ended `main` waits for nothing. -/
theorem Waits.returned {pc : MainPc} (h : Waits cfg s pc) (hexited : s.mem.pc = .exited)
    (hthread : ∀ i < cfg.devices, s.mem.thread i = .ended) : pc = .returned := by
  cases pc with
  | joinCpu i => exact absurd (hthread i (Nat.lt_succ_of_lt h.1)) h.2
  | joinLoader => exact absurd (hthread _ (Nat.lt_succ_self _)) h
  | joinTimer => exact absurd hexited h
  | returned => rfl
  | _ => exact h.elim

/-- Where `main` waits and nobody moves, it has returned. -/
theorem MainInv.returned_of_stuck (h : MainInv cfg Q s t) (hget : ∀ q, ∃ r q', Q.getProc q r q')
    (hwaits : Waits cfg s s.main)
    (hstuck : ∀ lab s', lab.isStatement = true → ¬ ThreadStep cfg Q s lab s') :
    s.main = .returned := by
  have hcreated : s.main.hasTimer = true ∧ s.main.hasLoader = true ∧
      ∀ c, s.main.hasCpu c = true := by
    cases hmain : s.main <;> rw [hmain] at hwaits <;>
      first | exact ⟨rfl, rfl, fun _ => rfl⟩ | exact hwaits.elim
  obtain ⟨htimer, hloader, hcpu⟩ := hcreated
  rcases h.phase.of_hasTimer htimer with ⟨k, -, hrun, -⟩ | ⟨cells, hfreeing⟩
  · have hended : Ended cfg (s.threads t) :=
      ended_of_stuck h.reachable hget fun lab u hlab hst => by
        obtain ⟨s', hst'⟩ := ThreadStep.of_step h.reachable hrun.mem htimer hloader hcpu hst hlab
        exact hstuck lab s' hlab hst'
    have hexited : s.mem.pc = .exited := by
      obtain ⟨_, hcells⟩ := hrun.mem
      exact hcells.pc.trans hended.timer
    exact hwaits.returned hexited fun i hi =>
      (hrun.mem.thread hi).symm.trans (hended.device _ (position_lt hi))
  · exact hwaits.returned hfreeing.exited hfreeing.thread

/-- All threads have ended, and every device is freed. -/
structure AllEnded (cfg : Config ι) (s : MainState π) : Prop where
  timer : s.mem.pc = .exited
  thread : ∀ i < cfg.devices, s.mem.thread i = .ended
  cpu : ∀ c < cfg.numCpus, (s.cpu c).pc = .stopped
  loader : s.loader.pc = .stopped
  heap : ∀ a, s.mem.heap a = none

/-- With `main` and all it waits for, and whatever the ready queue does as long as
`get_proc` returns: a reachable state has no statement left exactly if `main` has
returned, and then all threads have ended and every device is freed. -/
theorem stuck_iff_returned (hs : (mainSystem cfg Q malloc).Reachable s)
    (hget : ∀ q, ∃ r q', Q.getProc q r q') :
    ((∀ lab s', lab.isStatement = true → ¬ MainStep cfg Q malloc s lab s') ↔
      s.main = .returned) ∧
    (s.main = .returned → AllEnded cfg s) := by
  obtain ⟨s₀, tr, h₀, hr⟩ := hs
  obtain ⟨t, -, hinv⟩ := run_mainInv h₀ hr
  have hreturned : s.main = .returned → Freeing cfg s t [] := by
    intro hmain
    have hphase := hinv.phase
    rw [hmain] at hphase
    exact hphase
  refine ⟨⟨fun hstuck => ?_, fun hmain lab s' _ hst => ?_⟩, fun hmain => ?_⟩
  · rcases hinv.main_cases with ⟨l, s', hl, hm⟩ | ⟨-, hwaits⟩
    · exact absurd (.main hm) (hstuck l s' hl)
    · refine hinv.returned_of_stuck hget hwaits fun lab s' hlab hst => ?_
      refine hstuck (.thread lab) s' ?_ (.thread hst)
      rw [MainLabel.isStatement, Bool.not_eq_true', Bool.eq_false_iff]
      exact Label.not_spurious hlab
  · cases hst with
    | main hm =>
      rw [Os.mainRoutine, hmain] at hm
      cases hm
    | thread hst => exact (hreturned hmain).no_step hst
  · have hfreeing := hreturned hmain
    exact ⟨hfreeing.exited, hfreeing.thread, hfreeing.ended.cpu, hfreeing.ended.loader,
      fun a => congrFun hfreeing.left.nil.2 a⟩

/-- Where `main` waits for the CPU, another thread has a statement to make. -/
theorem stuck_iff_returned_joins :
    ∃ s : MainState (List ℕ), s.main = .joinCpu 0 ∧
      (∃ lab s', lab.isStatement = true ∧ MainStep oneProgram fifo .least s lab s') ∧
      mainRoutine oneProgram .least s = .ok none := by
  have h₀ : (mainSystem oneProgram fifo .least).init (mainStart fifo fun _ => none) := ⟨_, rfl⟩
  have hnil : (mainSystem oneProgram fifo .least).Run (mainStart fifo fun _ => none) [] _ := .nil
  have hattached := ((hnil.snoc (.main rfl)).snoc (.main rfl)).snoc (.main rfl)
  have hstarted := hattached.snoc (.main rfl)
  -- The loader, the CPU, and the end of the loop.
  have hr := ((hstarted.snoc (.main rfl)).snoc (.main rfl)).snoc (.main rfl)
  have hmoves : ∀ {s : MainState (List ℕ)}, (mainSystem oneProgram fifo .least).Reachable s →
      s.main = .joinCpu 0 →
      ∃ lab s', lab.isStatement = true ∧ MainStep oneProgram fifo .least s lab s' := by
    intro s hs hjoin
    by_contra hnone
    push Not at hnone
    cases hjoin.symm.trans ((stuck_iff_returned hs fifo_total).1.mp hnone)
  exact ⟨_, rfl, hmoves ⟨_, _, h₀, hr⟩ rfl, rfl⟩

end Proofs

end Os

end SimpleOs
