import SimpleOs.Timer

/-!
# The CPUs and the loader

`os.c` runs one thread per CPU and one loader thread. The loader adds every
program to the ready queue at its start time, one per slot at most, and then
sets `done`; a CPU takes processes from the ready queue, runs each for
`time_slot` slots at a time and leaves its loop when it finds no process and
`done` set. All of them are devices of the timer.

The model is a step relation over the interleavings of these threads with the
timer. A step is one statement, or a test together with the statement that
follows it where both read only the thread's own variables and the process it
holds. The ready queue is a parameter: `ReadyQueue` says what `get_proc`,
`put_proc` and `add_proc` do to the processes in it, each in one step. A
process is numbered by its position in the list of programs.
-/

namespace SimpleOs

namespace Os

/-! ## Parameters -/

/-- The ready queue: `content` is the collection of the processes in it.
`getProc q r q'` says that `get_proc` called on `q` may return `r` and leave
`q'`, where `none` is `NULL`. -/
structure ReadyQueue (π : Type*) where
  empty : π
  content : π → Multiset ℕ
  getProc : π → Option ℕ → π → Prop
  putProc : ℕ → π → π
  addProc : ℕ → π → π
  content_empty : content empty = 0
  content_get : ∀ {q p q'}, getProc q (some p) q' → content q = p ::ₘ content q'
  content_null : ∀ {q q'}, getProc q none q' → content q' = content q
  content_put : ∀ p q, content (putProc p q) = p ::ₘ content q
  content_add : ∀ p q, content (addProc p q) = p ::ₘ content q

/-- A program of the configuration file: its text and its start time. -/
structure Program (ι : Type*) where
  text : List ι
  startTime : BitVec 64

/-- The configuration file. -/
structure Config (ι : Type*) where
  timeSlot : ℤ
  numCpus : ℕ
  programs : List (Program ι)

namespace Config

variable {ι : Type*} (cfg : Config ι)

/-- `code->text` of process `p`. -/
def text (p : ℕ) : List ι :=
  (cfg.programs[p]?).elim [] Program.text

/-- `code->size` of process `p`. -/
def size (p : ℕ) : ℕ :=
  (cfg.text p).length

/-- `start_time` of program `i`. -/
def startTime (i : ℕ) : BitVec 64 :=
  (cfg.programs[i]?).elim 0 Program.startTime

/-- The position of CPU `c` in `dev_list`. The CPUs attach in order and the
loader last, each at the head of the list. -/
def device (c : ℕ) : ℕ :=
  cfg.numCpus - c

/-- The position of the loader in `dev_list`. -/
def loaderDevice : ℕ :=
  0

/-- The length of `dev_list`. -/
def devices : ℕ :=
  cfg.numCpus + 1

end Config

/-! ## State -/

/-- The position of `cpu_routine`. -/
inductive CpuPc
  | top
  | getFirst
  | getAfterFree
  | getAfterPut
  | recheck
  | exec
  | slot
  | leave
  | stopped
  deriving DecidableEq, Repr

/-- A CPU thread: its position and its local variables. -/
structure Cpu where
  pc : CpuPc
  proc : Option ℕ
  timeLeft : ℤ
  deriving DecidableEq, Repr

/-- The position of `ld_routine`. -/
inductive LoaderPc
  | whileLoad
  | waitStart
  | waitSlot
  | addProc
  | slot
  | setDone
  | leave
  | stopped
  deriving DecidableEq, Repr

/-- The loader thread: its position and its counter. -/
structure Loader where
  pc : LoaderPc
  i : ℕ
  deriving DecidableEq, Repr

/-- The whole system; `pc p` is `proc->pc` of process `p`. -/
structure State (π : Type*) where
  timer : Timer.State
  cpu : ℕ → Cpu
  loader : Loader
  queue : π
  done : Bool
  pc : ℕ → ℕ

variable {ι π : Type*}

/-- Replace the record of CPU `c`. -/
def State.setCpu (s : State π) (c : ℕ) (u : Cpu) : State π :=
  { s with cpu := Function.update s.cpu c u }

section SetCpu

variable (s : State π) (c d : ℕ) (u : Cpu)

@[simp] theorem setCpu_timer : (s.setCpu c u).timer = s.timer := rfl
@[simp] theorem setCpu_loader : (s.setCpu c u).loader = s.loader := rfl
@[simp] theorem setCpu_queue : (s.setCpu c u).queue = s.queue := rfl
@[simp] theorem setCpu_done : (s.setCpu c u).done = s.done := rfl
@[simp] theorem setCpu_pc : (s.setCpu c u).pc = s.pc := rfl

@[simp] theorem setCpu_cpu :
    (s.setCpu c u).cpu d = if d = c then u else s.cpu d := by
  simp [State.setCpu, Function.update_apply]

end SetCpu

/-- What a step does, as far as the results speak about it. -/
inductive Label (ι : Type*)
  | timer (a : Timer.Act)
  | cpu (c : ℕ)
  | got (c : ℕ) (r : Option ℕ)
  | put (c p : ℕ)
  | free (c p : ℕ)
  | run (c p : ℕ) (ins : Option ι)
  | loader
  | add (p : ℕ)
  deriving DecidableEq

/-! ## Steps -/

section Steps

variable (cfg : Config ι) (Q : ReadyQueue π)

/-- `run`, as far as the program counter goes: the instruction executed, if any,
and the new counter. What the instruction does to memory is in `Cpu`; where it faults
the program ends, so a result about what must still happen is one about programs whose
instructions return. -/
def run (text : List ι) (pc : ℕ) : Option ι × ℕ :=
  if pc ≥ text.length then (none, pc) else (text[pc]?, pc + 1)

/-- One statement of `cpu_routine` on CPU `c`, or `none` where the thread calls
the timer or has ended. `r` and `q` are what `get_proc` returns and the queue it
leaves; only the calls of `get_proc` read them. -/
def cpuRoutine (s : State π) (c : ℕ) (r : Option ℕ) (q : π) : Option (Label ι × State π) :=
  let u := s.cpu c
  match u.pc with
  | .top =>
    match u.proc with
    | none => some (.cpu c, s.setCpu c { u with pc := .getFirst })
    | some p =>
      if s.pc p = cfg.size p then some (.free c p, s.setCpu c { u with pc := .getAfterFree })
      else if u.timeLeft = 0 then
        some (.put c p,
          { s.setCpu c { u with pc := .getAfterPut } with queue := Q.putProc p s.queue })
      else some (.cpu c, s.setCpu c { u with pc := .recheck })
  | .getFirst =>
    some (.got c r,
      { s.setCpu c { u with proc := r, pc := if r.isNone then .slot else .recheck } with
        queue := q })
  | .getAfterFree =>
    some (.got c r,
      { s.setCpu c { u with proc := r, timeLeft := 0, pc := .recheck } with queue := q })
  | .getAfterPut =>
    some (.got c r, { s.setCpu c { u with proc := r, pc := .recheck } with queue := q })
  | .recheck =>
    match u.proc with
    | none =>
      if s.done then some (.cpu c, s.setCpu c { u with pc := .leave })
      else some (.cpu c, s.setCpu c { u with pc := .slot })
    | some _ =>
      some (.cpu c, s.setCpu c
        { u with timeLeft := if u.timeLeft = 0 then cfg.timeSlot else u.timeLeft, pc := .exec })
  | .exec =>
    match u.proc with
    | none => none
    | some p =>
      let (ins, k) := run (cfg.text p) (s.pc p)
      some (.run c p ins,
        { s.setCpu c { u with timeLeft := u.timeLeft - 1, pc := .slot } with
          pc := Function.update s.pc p k })
  | .slot | .leave | .stopped => none

/-- One statement of `ld_routine`, or `none` where the thread calls the timer or
has ended. -/
def ldRoutine (s : State π) : Option (Label ι × State π) :=
  let i := s.loader.i
  match s.loader.pc with
  | .whileLoad =>
    if i < cfg.programs.length then some (.loader, { s with loader := ⟨.waitStart, i⟩ })
    else some (.loader, { s with loader := ⟨.setDone, i⟩ })
  | .waitStart =>
    if s.timer.time < cfg.startTime i then some (.loader, { s with loader := ⟨.waitSlot, i⟩ })
    else some (.loader, { s with loader := ⟨.addProc, i⟩ })
  | .addProc =>
    some (.add i, { s with loader := ⟨.slot, i + 1⟩, queue := Q.addProc i s.queue })
  | .setDone => some (.loader, { s with loader := ⟨.leave, i⟩, done := true })
  | .waitSlot | .slot | .leave | .stopped => none

/-- The call of the timer a CPU makes, and where it continues after it. -/
def CpuPc.call (d : ℕ) : CpuPc → Option (Timer.Act × CpuPc)
  | .slot => some (.nextSlot d, .top)
  | .leave => some (.detachEvent d, .stopped)
  | _ => none

/-- The call of the timer the loader makes, and where it continues after it. -/
def LoaderPc.call (d : ℕ) : LoaderPc → Option (Timer.Act × LoaderPc)
  | .waitSlot => some (.nextSlot d, .waitStart)
  | .slot => some (.nextSlot d, .whileLoad)
  | .leave => some (.detachEvent d, .stopped)
  | _ => none

/-- The call that a CPU is at. -/
theorem CpuPc.call_eq {pc pc' : CpuPc} {d : ℕ} {a : Timer.Act} (h : pc.call d = some (a, pc')) :
    a = .nextSlot d ∧ pc = .slot ∧ pc' = .top ∨
      a = .detachEvent d ∧ pc = .leave ∧ pc' = .stopped := by
  cases pc <;> cases h
  · exact .inl ⟨rfl, rfl, rfl⟩
  · exact .inr ⟨rfl, rfl, rfl⟩

/-- The call that the loader is at. -/
theorem LoaderPc.call_eq {pc pc' : LoaderPc} {d : ℕ} {a : Timer.Act}
    (h : pc.call d = some (a, pc')) :
    a = .nextSlot d ∧ (pc = .waitSlot ∧ pc' = .waitStart ∨ pc = .slot ∧ pc' = .whileLoad) ∨
      a = .detachEvent d ∧ pc = .leave ∧ pc' = .stopped := by
  cases pc <;> cases h
  · exact .inl ⟨rfl, .inl ⟨rfl, rfl⟩⟩
  · exact .inl ⟨rfl, .inr ⟨rfl, rfl⟩⟩
  · exact .inr ⟨rfl, rfl, rfl⟩

/-- The position is a call of `get_proc`. -/
def CpuPc.gets : CpuPc → Bool
  | .getFirst | .getAfterFree | .getAfterPut => true
  | _ => false

end Steps

/-- The steps of the whole system. A thread whose device is inside `next_slot` or
`detach_event` takes the steps of these functions, which are timer steps. -/
inductive Step (cfg : Config ι) (Q : ReadyQueue π) : State π → Label ι → State π → Prop
  | cpu {s s' : State π} {c : ℕ} {r : Option ℕ} {q : π} {l : Label ι} :
      c < cfg.numCpus → (s.timer.device (cfg.device c)).pc = .working →
      ((s.cpu c).pc.gets = true → Q.getProc s.queue r q) →
      cpuRoutine cfg Q s c r q = some (l, s') → Step cfg Q s l s'
  | cpuCall {s : State π} {c : ℕ} {a : Timer.Act} {pc : CpuPc} {t : Timer.State} :
      c < cfg.numCpus → (s.cpu c).pc.call (cfg.device c) = some (a, pc) →
      Timer.step cfg.devices s.timer a = some t →
      Step cfg Q s (.timer a) { s.setCpu c { s.cpu c with pc := pc } with timer := t }
  | loader {s s' : State π} {l : Label ι} :
      (s.timer.device Config.loaderDevice).pc = .working →
      ldRoutine cfg Q s = some (l, s') → Step cfg Q s l s'
  | loaderCall {s : State π} {a : Timer.Act} {pc : LoaderPc} {t : Timer.State} :
      s.loader.pc.call Config.loaderDevice = some (a, pc) →
      Timer.step cfg.devices s.timer a = some t →
      Step cfg Q s (.timer a) { s with loader := ⟨pc, s.loader.i⟩, timer := t }
  | timer {s : State π} {a : Timer.Act} {t : Timer.State} :
      a.isCall = false → Timer.step cfg.devices s.timer a = some t →
      Step cfg Q s (.timer a) { s with timer := t }

/-- The state in which `main` has created the threads. -/
def start (Q : ReadyQueue π) : State π where
  timer := Timer.startTimer
  cpu := fun _ => ⟨.top, none, 0⟩
  loader := ⟨.whileLoad, 0⟩
  queue := Q.empty
  done := false
  pc := fun _ => 0

/-- The system that `main` starts. -/
def system (cfg : Config ι) (Q : ReadyQueue π) : Lts (State π) (Label ι) where
  init s := s = start Q
  step := Step cfg Q

/-! ## What one statement does -/

/-- The effect of one statement of CPU `c`, case by case. -/
inductive CpuMove (cfg : Config ι) (Q : ReadyQueue π) (s : State π) (c : ℕ) :
    Label ι → State π → Prop
  | noProc : (s.cpu c).pc = .top → (s.cpu c).proc = none →
      CpuMove cfg Q s c (.cpu c) (s.setCpu c ⟨.getFirst, none, (s.cpu c).timeLeft⟩)
  | finished {p : ℕ} : (s.cpu c).pc = .top → (s.cpu c).proc = some p → s.pc p = cfg.size p →
      CpuMove cfg Q s c (.free c p) (s.setCpu c ⟨.getAfterFree, some p, (s.cpu c).timeLeft⟩)
  | expired {p : ℕ} : (s.cpu c).pc = .top → (s.cpu c).proc = some p → s.pc p ≠ cfg.size p →
      (s.cpu c).timeLeft = 0 →
      CpuMove cfg Q s c (.put c p)
        { s.setCpu c ⟨.getAfterPut, some p, (s.cpu c).timeLeft⟩ with
          queue := Q.putProc p s.queue }
  | running {p : ℕ} : (s.cpu c).pc = .top → (s.cpu c).proc = some p → s.pc p ≠ cfg.size p →
      (s.cpu c).timeLeft ≠ 0 →
      CpuMove cfg Q s c (.cpu c) (s.setCpu c ⟨.recheck, some p, (s.cpu c).timeLeft⟩)
  | got {r : Option ℕ} {q : π} {k : ℤ} : (s.cpu c).pc.gets = true →
      k = (if (s.cpu c).pc = .getAfterFree then 0 else (s.cpu c).timeLeft) →
      Q.getProc s.queue r q →
      CpuMove cfg Q s c (.got c r)
        { s.setCpu c ⟨if (s.cpu c).pc = .getFirst ∧ r = none then .slot else .recheck, r, k⟩ with
          queue := q }
  | exit : (s.cpu c).pc = .recheck → (s.cpu c).proc = none → s.done = true →
      CpuMove cfg Q s c (.cpu c) (s.setCpu c ⟨.leave, none, (s.cpu c).timeLeft⟩)
  | idle : (s.cpu c).pc = .recheck → (s.cpu c).proc = none → s.done = false →
      CpuMove cfg Q s c (.cpu c) (s.setCpu c ⟨.slot, none, (s.cpu c).timeLeft⟩)
  | dispatch {p : ℕ} {k : ℤ} : (s.cpu c).pc = .recheck → (s.cpu c).proc = some p →
      k = (if (s.cpu c).timeLeft = 0 then cfg.timeSlot else (s.cpu c).timeLeft) →
      CpuMove cfg Q s c (.cpu c) (s.setCpu c ⟨.exec, some p, k⟩)
  | exec {p : ℕ} : (s.cpu c).pc = .exec → (s.cpu c).proc = some p →
      CpuMove cfg Q s c (.run c p (run (cfg.text p) (s.pc p)).1)
        { s.setCpu c ⟨.slot, some p, (s.cpu c).timeLeft - 1⟩ with
          pc := Function.update s.pc p (run (cfg.text p) (s.pc p)).2 }

theorem cpuRoutine_move {cfg : Config ι} {Q : ReadyQueue π} {s s' : State π} {c : ℕ}
    {r : Option ℕ} {q : π} {l : Label ι} (hget : (s.cpu c).pc.gets = true → Q.getProc s.queue r q)
    (h : cpuRoutine cfg Q s c r q = some (l, s')) : CpuMove cfg Q s c l s' := by
  unfold cpuRoutine at h
  cases hpc : (s.cpu c).pc <;> simp only [hpc] at h hget
  case top =>
    cases hproc : (s.cpu c).proc with
    | none =>
      simp only [hproc] at h
      cases h
      exact .noProc hpc hproc
    | some p =>
      simp only [hproc] at h
      split at h
      · next hfin =>
        cases h
        exact .finished hpc hproc hfin
      · next hfin =>
        split at h
        · next hleft =>
          cases h
          exact .expired hpc hproc hfin hleft
        · next hleft =>
          cases h
          exact .running hpc hproc hfin hleft
  case getFirst | getAfterFree | getAfterPut =>
    cases h
    have hgets : (s.cpu c).pc.gets = true := by simp [hpc, CpuPc.gets]
    simpa [hpc] using CpuMove.got hgets rfl (hget rfl)
  case recheck =>
    cases hproc : (s.cpu c).proc with
    | none =>
      simp only [hproc] at h
      split at h
      · next hdone =>
        cases h
        exact .exit hpc hproc hdone
      · next hdone =>
        cases h
        exact .idle hpc hproc (by simpa using hdone)
    | some p =>
      simp only [hproc] at h
      cases h
      exact .dispatch hpc hproc rfl
  case exec =>
    cases hproc : (s.cpu c).proc with
    | none => simp [hproc] at h
    | some p =>
      simp only [hproc] at h
      cases h
      exact .exec hpc hproc
  all_goals cases h

/-- The effect of one statement of the loader, case by case. -/
inductive LoaderMove (cfg : Config ι) (Q : ReadyQueue π) (s : State π) : Label ι → State π → Prop
  | load : s.loader.pc = .whileLoad → s.loader.i < cfg.programs.length →
      LoaderMove cfg Q s .loader { s with loader := ⟨.waitStart, s.loader.i⟩ }
  | allLoaded : s.loader.pc = .whileLoad → cfg.programs.length ≤ s.loader.i →
      LoaderMove cfg Q s .loader { s with loader := ⟨.setDone, s.loader.i⟩ }
  | early : s.loader.pc = .waitStart → s.timer.time < cfg.startTime s.loader.i →
      LoaderMove cfg Q s .loader { s with loader := ⟨.waitSlot, s.loader.i⟩ }
  | onTime : s.loader.pc = .waitStart → cfg.startTime s.loader.i ≤ s.timer.time →
      LoaderMove cfg Q s .loader { s with loader := ⟨.addProc, s.loader.i⟩ }
  | addProc : s.loader.pc = .addProc →
      LoaderMove cfg Q s (.add s.loader.i)
        { s with loader := ⟨.slot, s.loader.i + 1⟩, queue := Q.addProc s.loader.i s.queue }
  | setDone : s.loader.pc = .setDone →
      LoaderMove cfg Q s .loader { s with loader := ⟨.leave, s.loader.i⟩, done := true }

theorem ldRoutine_move {cfg : Config ι} {Q : ReadyQueue π} {s s' : State π} {l : Label ι}
    (h : ldRoutine cfg Q s = some (l, s')) : LoaderMove cfg Q s l s' := by
  simp only [ldRoutine] at h
  cases hpc : s.loader.pc <;> simp only [hpc] at h
  case whileLoad =>
    split at h
    · next hi =>
      cases h
      exact .load hpc hi
    · next hi =>
      cases h
      exact .allLoaded hpc (Nat.le_of_not_lt hi)
  case waitStart =>
    split at h
    · next ht =>
      cases h
      exact .early hpc ht
    · next ht =>
      cases h
      exact .onTime hpc (BitVec.not_lt.mp ht)
  case addProc =>
    cases h
    exact .addProc hpc
  case setDone =>
    cases h
    exact .setDone hpc
  all_goals cases h

/-! ## Running the model -/

/-- A ready queue that serves the processes in the order they came. -/
def fifo : ReadyQueue (List ℕ) where
  empty := []
  content q := q
  getProc q r q' := r = q.head? ∧ q' = q.tail
  putProc p q := q ++ [p]
  addProc p q := q ++ [p]
  content_empty := rfl
  content_get := by
    rintro (_ | ⟨p, q⟩) _ _ ⟨h, rfl⟩ <;> cases h
    rfl
  content_null := by
    rintro (_ | ⟨p, q⟩) _ ⟨h, rfl⟩
    · rfl
    · cases h
  content_put p q := Multiset.coe_eq_coe.mpr (List.perm_append_singleton p q)
  content_add p q := Multiset.coe_eq_coe.mpr (List.perm_append_singleton p q)

/-- Who moves. -/
inductive Thread
  | cpu (c : ℕ)
  | loader
  | timer (a : Timer.Act)
  deriving DecidableEq

/-- The step that a thread takes, with the first process of the queue for `get_proc`. -/
def move (cfg : Config ι) (s : State (List ℕ)) : Thread → Option (Label ι × State (List ℕ))
  | .cpu c =>
    if c < cfg.numCpus then
      match (s.cpu c).pc.call (cfg.device c) with
      | some (a, pc) => (Timer.step cfg.devices s.timer a).map fun t =>
          (.timer a, { s.setCpu c { s.cpu c with pc := pc } with timer := t })
      | none =>
        if (s.timer.device (cfg.device c)).pc = .working then
          cpuRoutine cfg fifo s c s.queue.head? s.queue.tail
        else none
    else none
  | .loader =>
    match s.loader.pc.call Config.loaderDevice with
    | some (a, pc) => (Timer.step cfg.devices s.timer a).map fun t =>
        (.timer a, { s with loader := ⟨pc, s.loader.i⟩, timer := t })
    | none =>
      if (s.timer.device Config.loaderDevice).pc = .working then ldRoutine cfg fifo s else none
  | .timer a =>
    if a.isCall then none
    else (Timer.step cfg.devices s.timer a).map fun t => (.timer a, { s with timer := t })

theorem step_of_move {cfg : Config ι} {s s' : State (List ℕ)} {th : Thread} {l : Label ι}
    (h : move cfg s th = some (l, s')) : Step cfg fifo s l s' := by
  cases th with
  | cpu c =>
    obtain ⟨hc, h⟩ := Option.ite_none_right_eq_some.mp h
    split at h
    · next a pc hcall =>
      obtain ⟨t, ht, heq⟩ := Option.map_eq_some_iff.mp h
      cases heq
      exact .cpuCall hc hcall ht
    · obtain ⟨hw, h⟩ := Option.ite_none_right_eq_some.mp h
      exact .cpu hc hw (fun _ => ⟨rfl, rfl⟩) h
  | loader =>
    simp only [move] at h
    split at h
    · next a pc hcall =>
      obtain ⟨t, ht, heq⟩ := Option.map_eq_some_iff.mp h
      cases heq
      exact .loaderCall hcall ht
    · obtain ⟨hw, h⟩ := Option.ite_none_right_eq_some.mp h
      exact .loader hw h
  | timer a =>
    simp only [move] at h
    split at h
    · cases h
    · next ha =>
      obtain ⟨t, ht, heq⟩ := Option.map_eq_some_iff.mp h
      cases heq
      exact .timer (by simpa using ha) ht

/-- The labels and the state after the threads have moved in the given order. -/
def moves (cfg : Config ι) : List Thread → State (List ℕ) → Option (List (Label ι) × State (List ℕ))
  | [], s => some ([], s)
  | th :: ths, s => do
    let (l, t) ← move cfg s th
    let (tr, u) ← moves cfg ths t
    some (l :: tr, u)

theorem run_of_moves {cfg : Config ι} {ths : List Thread} {s t : State (List ℕ)}
    {tr : List (Label ι)} (h : moves cfg ths s = some (tr, t)) :
    (system cfg fifo).Run s tr t := by
  induction ths generalizing s tr with
  | nil =>
    cases h
    exact .nil
  | cons th ths ih =>
    obtain ⟨⟨l, u⟩, hl, h⟩ := Option.bind_eq_some_iff.mp h
    obtain ⟨⟨tr', t'⟩, htr, h⟩ := Option.bind_eq_some_iff.mp h
    cases h
    exact Lts.Run.append (.snoc .nil (step_of_move hl)) (ih htr)

end Os

end SimpleOs
