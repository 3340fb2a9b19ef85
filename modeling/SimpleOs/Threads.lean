import SimpleOs.Dispatch
import SimpleOs.TimerProgress

/-!
# The threads and their devices

Every CPU and the loader is a device of the timer. What the position of the
device says about the position of its thread holds in every state of a run, and
so does what the loader's counter says about `done`.

Results:
1. `Threads.step`: every step keeps this, whatever the ready queue does.
2. `threads_of_reachable`: hence it holds of every reachable state.
-/

namespace SimpleOs

namespace Os

variable {ι π : Type*} {cfg : Config ι} {Q : ReadyQueue π}

/-! ## The threads and their devices -/

/-- What the position of a device says about its thread: inside `next_slot` the
thread has `waits`, inside `detach_event` it has `ended`, at work it has not. -/
def DeviceOf (waits ended : Prop) (pc : Timer.DevicePc) : Prop :=
  if pc.inNextSlot then waits else if pc.inDetach then ended else ¬ ended

theorem DeviceOf.working {waits ended : Prop} {pc : Timer.DevicePc} (hpc : pc = .working)
    (h : ¬ ended) : DeviceOf waits ended pc := by
  subst hpc
  exact h

theorem DeviceOf.eq_working {waits ended : Prop} {pc : Timer.DevicePc}
    (h : DeviceOf waits ended pc) (hw : ¬ waits) (he : ¬ ended) : pc = .working := by
  cases pc <;> first | rfl | exact absurd h hw | exact absurd h he

theorem DeviceOf.phase {waits ended : Prop} {pc pc' : Timer.DevicePc}
    (h : DeviceOf waits ended pc) (hexcl : waits → ¬ ended) (hp : pc.Phase pc') :
    DeviceOf waits ended pc' := by
  have hdetach : ∀ pc : Timer.DevicePc, pc.inDetach = true → pc.inNextSlot = false := by
    intro pc
    cases pc <;> decide
  cases hp with
  | same => exact h
  | inside h1 h2 => simpa [DeviceOf, h1, h2] using h
  | returns h1 =>
    rw [DeviceOf, if_pos h1] at h
    exact .working rfl (hexcl h)
  | detaching h1 h2 => simpa [DeviceOf, h1, h2, hdetach _ h1, hdetach _ h2] using h

/-- CPU `c` and its device. -/
def CpuDevice (cfg : Config ι) (s : State π) (c : ℕ) : Prop :=
  DeviceOf ((s.cpu c).pc = .top) ((s.cpu c).pc = .stopped) (s.timer.device (cfg.device c)).pc

/-- The loader and its device. -/
def LoaderDevice (s : State π) : Prop :=
  DeviceOf (s.loader.pc = .whileLoad ∨ s.loader.pc = .waitStart) (s.loader.pc = .stopped)
    (s.timer.device Config.loaderDevice).pc

/-- What the loader's counter and `done` say about its position. -/
structure LoaderInv (cfg : Config ι) (i : ℕ) (done : Bool) (pc : LoaderPc) : Prop where
  le : i ≤ cfg.programs.length
  loading : pc = .waitStart ∨ pc = .waitSlot ∨ pc = .addProc → i < cfg.programs.length
  finished : pc = .setDone ∨ pc = .leave ∨ pc = .stopped → i = cfg.programs.length
  done_iff : done = true ↔ pc = .leave ∨ pc = .stopped

/-- A device other than the loader's is no part of the loader's view. -/
theorem device_ne_loader {c : ℕ} (hc : c < cfg.numCpus) : cfg.device c ≠ Config.loaderDevice := by
  have : 0 < cfg.numCpus - c := Nat.sub_pos_of_lt hc
  exact this.ne'

theorem device_inj {c c' : ℕ} (hc : c < cfg.numCpus) (hc' : c' < cfg.numCpus)
    (h : cfg.device c = cfg.device c') : c = c' := by
  simp only [Config.device] at h
  omega

theorem device_lt (cfg : Config ι) (c : ℕ) : cfg.device c < cfg.devices :=
  Nat.lt_succ_of_le (Nat.sub_le _ _)

theorem loaderDevice_lt : Config.loaderDevice < cfg.devices :=
  Nat.succ_pos _

/-- The loader stays in its loop: `done` is not set yet. -/
theorem LoaderInv.move {i i' : ℕ} {done : Bool} {pc pc' : LoaderPc} (h : LoaderInv cfg i done pc)
    (hpc : pc ≠ .leave ∧ pc ≠ .stopped) (hpc' : pc' ≠ .leave ∧ pc' ≠ .stopped)
    (hle : i' ≤ cfg.programs.length)
    (hloading : pc' = .waitStart ∨ pc' = .waitSlot ∨ pc' = .addProc → i' < cfg.programs.length)
    (hset : pc' = .setDone → i' = cfg.programs.length) : LoaderInv cfg i' done pc' where
  le := hle
  loading := hloading
  finished h := h.elim hset fun h => absurd h (not_or.mpr hpc')
  done_iff := h.done_iff.trans (iff_of_false (not_or.mpr hpc) (not_or.mpr hpc'))

theorem LoaderMove.counter {s s' : State π} {lab : Label ι} (hm : LoaderMove cfg Q s lab s')
    (h : LoaderInv cfg s.loader.i s.done s.loader.pc) :
    LoaderInv cfg s'.loader.i s'.done s'.loader.pc := by
  have hloop : ∀ pc, s.loader.pc = pc → pc ≠ .leave ∧ pc ≠ .stopped →
      s.loader.pc ≠ .leave ∧ s.loader.pc ≠ .stopped := by
    rintro pc rfl hpc
    exact hpc
  cases hm with
  | load hpc hi =>
    exact h.move (hloop _ hpc ⟨nofun, nofun⟩) ⟨nofun, nofun⟩ h.le (fun _ => hi) nofun
  | allLoaded hpc hi =>
    exact h.move (hloop _ hpc ⟨nofun, nofun⟩) ⟨nofun, nofun⟩ h.le
      (by rintro (h | h | h) <;> cases h) fun _ => Nat.le_antisymm h.le hi
  | early hpc | onTime hpc =>
    exact h.move (hloop _ hpc ⟨nofun, nofun⟩) ⟨nofun, nofun⟩ h.le
      (fun _ => h.loading (.inl hpc)) nofun
  | addProc hpc =>
    exact h.move (hloop _ hpc ⟨nofun, nofun⟩) ⟨nofun, nofun⟩ (h.loading (.inr (.inr hpc)))
      (by rintro (h | h | h) <;> cases h) nofun
  | setDone hpc =>
    exact ⟨h.le, (by rintro (h | h | h) <;> cases h), fun _ => h.finished (.inl hpc),
      iff_of_true rfl (.inl rfl)⟩

/-- The call of the timer that a thread makes, and the record of its device after it. -/
theorem timer_call {t t' : Timer.State} {a : Timer.Act} {d : ℕ} {n : ℕ}
    (ha : a = .nextSlot d ∨ a = .detachEvent d) (hst : Timer.step n t a = some t') :
    d < n ∧ (t.device d).pc = .working ∧ (∀ e, e ≠ d → t'.toLocal e = t.toLocal e) ∧
    (t'.device d).pc = if a = .nextSlot d then .lockEvent else .detachLock := by
  rcases ha with rfl | rfl
  · obtain ⟨hd, hw, rfl⟩ := Timer.step_call (.inl ⟨rfl, rfl⟩) hst
    refine ⟨hd, hw, fun e he => ?_, by simp⟩
    simp [Timer.State.toLocal, Timer.view_setDevice, he]
  · obtain ⟨hd, hw, rfl⟩ := Timer.step_call (.inr ⟨rfl, rfl⟩) hst
    refine ⟨hd, hw, fun e he => ?_, by simp⟩
    simp [Timer.State.toLocal, Timer.view_setDevice, he]

/-- A statement of CPU `c` changes this CPU only. It does not stop the CPU, and the
CPU leaves the loop only when it has seen `done`. -/
theorem CpuMove.cpu_eq {s s' : State π} {c : ℕ} {lab : Label ι} (hm : CpuMove cfg Q s c lab s') :
    ∃ u, s'.cpu = Function.update s.cpu c u ∧ u.pc ≠ .stopped ∧
      (u.pc = .leave → s.done = true) := by
  cases hm with
  | noProc | finished | expired | running | idle | dispatch | exec => exact ⟨_, rfl, nofun, nofun⟩
  | exit hpc hproc hdone => exact ⟨_, rfl, nofun, fun _ => hdone⟩
  | got =>
    exact ⟨_, rfl, afterGet_ne ⟨nofun, nofun⟩, fun h => absurd h (afterGet_ne ⟨nofun, nofun⟩)⟩

theorem CpuMove.frame {s s' : State π} {c : ℕ} {lab : Label ι}
    (hm : CpuMove cfg Q s c lab s') :
    s'.timer = s.timer ∧ s'.loader = s.loader ∧ s'.done = s.done := by
  cases hm <;> exact ⟨rfl, rfl, rfl⟩

theorem LoaderMove.frame {s s' : State π} {lab : Label ι} (hm : LoaderMove cfg Q s lab s') :
    s'.cpu = s.cpu ∧ s'.timer = s.timer ∧ s'.loader.pc ≠ .stopped ∧
      (s.done = true → s'.done = true) := by
  cases hm with
  | setDone => exact ⟨rfl, rfl, nofun, fun _ => rfl⟩
  | _ => exact ⟨rfl, rfl, nofun, id⟩

/-! ## Every step -/

/-- What holds between the threads and their devices. -/
structure Threads (cfg : Config ι) (s : State π) : Prop where
  timer : (Timer.system cfg.devices).Reachable s.timer
  cpu : ∀ c < cfg.numCpus, CpuDevice cfg s c
  loader : LoaderDevice s
  counter : LoaderInv cfg s.loader.i s.done s.loader.pc

theorem threads_start : Threads cfg (start Q) where
  timer := .init rfl
  cpu c _ := .working rfl (by simp [start])
  loader := .working rfl (by simp [start])
  counter := ⟨by simp [start], by simp [start], by simp [start], by simp [start]⟩

/-- Statements of a CPU. -/
theorem CpuMove.threads {s s' : State π} {c : ℕ} {lab : Label ι} (hm : CpuMove cfg Q s c lab s')
    (hw : (s.timer.device (cfg.device c)).pc = .working) (h : Threads cfg s) : Threads cfg s' := by
  obtain ⟨u, hcpu, hnot, -⟩ := hm.cpu_eq
  obtain ⟨htimer, hloader, hdone⟩ := hm.frame
  refine ⟨by rw [htimer]; exact h.timer, fun c' hc' => ?_, ?_, ?_⟩
  · rw [CpuDevice, hcpu, htimer]
    rcases eq_or_ne c' c with rfl | hcc
    · rw [Function.update_self]
      exact .working hw hnot
    · rw [Function.update_of_ne hcc]
      exact h.cpu c' hc'
  · rw [LoaderDevice, htimer, hloader]
    exact h.loader
  · rw [hloader, hdone]
    exact h.counter

/-- Statements of the loader. -/
theorem LoaderMove.threads {s s' : State π} {lab : Label ι} (hm : LoaderMove cfg Q s lab s')
    (hw : (s.timer.device Config.loaderDevice).pc = .working) (h : Threads cfg s) :
    Threads cfg s' := by
  obtain ⟨hcpu, htimer, hnot, -⟩ := hm.frame
  refine ⟨by rw [htimer]; exact h.timer, fun c hc => ?_, .working (by rw [htimer]; exact hw) hnot,
    hm.counter h.counter⟩
  rw [CpuDevice, hcpu, htimer]
  exact h.cpu c hc

/-- The calls of a CPU. -/
theorem Threads.cpuCall {s : State π} {t : Timer.State} {a : Timer.Act} {c : ℕ} {pc : CpuPc}
    (h : Threads cfg s) (hc : c < cfg.numCpus)
    (hcall : (s.cpu c).pc.call (cfg.device c) = some (a, pc))
    (hst : Timer.step cfg.devices s.timer a = some t) :
    Threads cfg { s.setCpu c { s.cpu c with pc := pc } with timer := t } := by
  have ha := CpuPc.call_eq hcall
  obtain ⟨-, -, hother, hdev⟩ := timer_call (ha.imp And.left And.left) hst
  have hdevice : ∀ e, e ≠ cfg.device c → t.device e = s.timer.device e := fun e he =>
    congrArg Timer.Local.device (hother e he)
  refine ⟨h.timer.step hst, fun c' hc' => ?_, ?_, h.counter⟩
  · rcases eq_or_ne c' c with rfl | hcc
    · rcases ha with ⟨rfl, hpc, rfl⟩ | ⟨rfl, hpc, rfl⟩ <;>
        simp [CpuDevice, hdev, DeviceOf, Timer.DevicePc.inNextSlot, Timer.DevicePc.inDetach,
          State.setCpu]
    · have hne : cfg.device c' ≠ cfg.device c := fun heq => hcc (device_inj hc' hc heq)
      simpa [CpuDevice, hdevice _ hne, State.setCpu, Function.update_of_ne hcc] using h.cpu c' hc'
  · rw [LoaderDevice, hdevice _ (device_ne_loader hc).symm]
    exact h.loader

/-- The calls of the loader. -/
theorem Threads.loaderCall {s : State π} {t : Timer.State} {a : Timer.Act} {pc : LoaderPc}
    (h : Threads cfg s) (hcall : s.loader.pc.call Config.loaderDevice = some (a, pc))
    (hst : Timer.step cfg.devices s.timer a = some t) :
    Threads cfg { s with loader := ⟨pc, s.loader.i⟩, timer := t } := by
  have ha := LoaderPc.call_eq hcall
  obtain ⟨-, -, hother, hdev⟩ := timer_call (ha.imp And.left And.left) hst
  refine ⟨h.timer.step hst, fun c hc => ?_, ?_, ?_⟩
  · have hdevice : t.device (cfg.device c) = s.timer.device (cfg.device c) :=
      congrArg Timer.Local.device (hother _ (device_ne_loader hc))
    rw [CpuDevice, hdevice]
    exact h.cpu c hc
  · rcases ha with ⟨rfl, ⟨hpc, rfl⟩ | ⟨hpc, rfl⟩⟩ | ⟨rfl, hpc, rfl⟩ <;>
      simp [LoaderDevice, hdev, DeviceOf, Timer.DevicePc.inNextSlot, Timer.DevicePc.inDetach]
  · obtain ⟨c1, c2, c3, c4⟩ := h.counter
    rcases ha with ⟨rfl, ⟨hpc, rfl⟩ | ⟨hpc, rfl⟩⟩ | ⟨rfl, hpc, rfl⟩ <;> constructor <;> simp_all

/-- Steps of the timer that no thread outside it calls. -/
theorem Threads.timerStep {s : State π} {t : Timer.State} {a : Timer.Act} (h : Threads cfg s)
    (ha : a.isCall = false) (hst : Timer.step cfg.devices s.timer a = some t) :
    Threads cfg { s with timer := t } := by
  have hphase := Timer.step_phase hst ha
  exact ⟨h.timer.step hst,
    fun c hc => (h.cpu c hc).phase (by rintro h h'; simp [h] at h') (hphase _),
    h.loader.phase (by rintro (h | h) h' <;> simp [h] at h') (hphase _), h.counter⟩

theorem Threads.step {s s' : State π} {lab : Label ι} (h : Threads cfg s)
    (hst : Step cfg Q s lab s') : Threads cfg s' := by
  cases hst with
  | cpu hc hw hget hm => exact (cpuRoutine_move hget hm).threads hw h
  | cpuCall hc hcall hst => exact h.cpuCall hc hcall hst
  | loader hw hm => exact (ldRoutine_move hm).threads hw h
  | loaderCall hcall hst => exact h.loaderCall hcall hst
  | timer ha hst => exact h.timerStep ha hst

theorem threads_of_reachable {s : State π} (hs : (system cfg Q).Reachable s) : Threads cfg s :=
  hs.invariant (fun _ h => h ▸ threads_start) fun _ _ _ h hst => h.step hst

/-- The timer of a reachable state is a reachable timer. -/
theorem timer_reachable {s : State π} (hs : (system cfg Q).Reachable s) :
    (Timer.system cfg.devices).Reachable s.timer :=
  (threads_of_reachable hs).timer

end Os

end SimpleOs
