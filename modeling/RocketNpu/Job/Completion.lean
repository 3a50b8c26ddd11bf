import RocketNpu.Job.Isolation

namespace RocketNpu.Job
open Runs

variable {jobs : Jobs} {c c' : Core}

/-- Read from the latest event on: a task was started only after the task before it was
completed, and a job signalled only after each of its tasks was. -/
def InOrder (taskCount : ℕ → ℕ) : List Event → Prop
  | [] => True
  | .started j k :: past =>
    (∀ i, k = i + 1 → .completed j i ∈ past) ∧ InOrder taskCount past
  | .completed _ _ :: past => InOrder taskCount past
  | .signalled j :: past =>
    (∀ k < taskCount j, .completed j k ∈ past) ∧ InOrder taskCount past

/-- The IRQ thread runs only when woken, so every run of it answers an interrupt the
hardware posted on completing a task. -/
def Posted (jobs : Jobs) (c : Core) (a : Act) (c' : Core) : Prop :=
  Step jobs c a c' ∧ a ≠ .irqThread true

/-- In `rocket_job_handle_irq` before its test of `in_flight_job`. -/
def IrqPc.untested : IrqPc → Bool
  | .entered | .disabled | .cleared | .locked => true
  | _ => false

/-- When `rocket_job_run` stores `in_flight_job`, no IRQ thread is woken or before its
test. -/
def noLateThread (c : Core) : Act → Bool
  | .run _ =>
    match c.run with
    | .locked _ => !c.woken && !c.irq.untested
    | _ => true
  | _ => true

/-- The job is dropped and the hardware not reset yet. -/
def ResetPc.dirty : ResetPc → Bool
  | .forgotten | .unlocked => true
  | _ => false

/-- Every task of job `j` below `k` was completed. -/
def Core.tasksDone (c : Core) (j k : ℕ) : Prop := ∀ i < k, .completed j i ∈ c.log

theorem Core.tasksDone.cons {j k : ℕ} (h : c.tasksDone j k) (e : Event) :
    ∀ i < k, .completed j i ∈ e :: c.log :=
  fun i hi => List.mem_cons_of_mem e (h i hi)

/-- Every task started of the job in flight was completed. -/
def Core.Settled (c : Core) : Prop :=
  ∀ j, c.inFlightJob = some j → c.tasksDone j (c.nextTaskIdx j)

/-- What holds at each point of the IRQ thread. Until its test it can trust that the tasks
started so far were completed, and from its write of OPERATION_ENABLE to the end of the
section, or to the next start, the hardware is quiet. -/
def IrqOrder (c : Core) : Prop :=
  match c.irq with
  | .idle | .leaving => True
  | .entered => c.Settled ∧ c.intMask = false ∧ c.woken = false
  | .disabled => c.Settled ∧ c.intMask = false ∧ c.woken = false ∧ c.exec = none
  | .cleared | .locked => c.Settled ∧ c.intMask = false ∧ c.woken = false ∧
      c.exec = none ∧ c.rawStatus = false
  | .submit j p => p.before = true → c.woken = false ∧ c.exec = none ∧ c.rawStatus = false ∧
      (p = .check → c.tasksDone j (c.nextTaskIdx j)) ∧ ∀ k, p.task = some k → c.tasksDone j k
  | .finishing j | .detached j | .signalled j =>
      c.exec = none ∧ c.rawStatus = false ∧ c.tasksDone j (c.nextTaskIdx j)

structure Order (jobs : Jobs) (c : Core) : Prop where
  log : InOrder jobs.taskCount c.log
  exec : ∀ j k, c.exec = some (j, k) → c.rawStatus = false ∧ c.nextTaskIdx j = k + 1 ∧
    c.tasksDone j k ∧ (c.inFlightJob = some j ∨ c.reset.dirty = true)
  idle : c.inFlightJob = none → c.reset.dirty = false → c.exec = none ∧ c.rawStatus = false
  raw : c.rawStatus = true → c.Settled
  woken : c.woken = true → c.Settled ∧ c.intMask = false
  irq : IrqOrder c
  runSubmit : ∀ j p, c.run = .submit j p → p.before = true →
    c.exec = none ∧ c.rawStatus = false ∧ c.woken = false ∧ c.irq.untested = false

theorem Order.init : Order jobs Core.init := by
  constructor <;> simp [Core.init, InOrder, IrqOrder]

theorem IrqPc.eq_idle {p : IrqPc} (h1 : p.holds = false) (h2 : p.untested = false) :
    p = .idle := by
  cases p <;> simp [IrqPc.holds, IrqPc.untested] at h1 h2 ⊢

theorem IrqOrder.of_idle (h : c.irq = .idle) : IrqOrder c := by
  simp [IrqOrder, h]

theorem IrqOrder.late (h : IrqOrder c) (hp : c.irq.untested = true) :
    c.Settled ∧ c.intMask = false ∧ c.woken = false := by
  revert h hp
  cases hi : c.irq <;> simp +contextual [IrqOrder, IrqPc.untested, hi]

/-- The IRQ thread's own facts survive what makes the hardware quieter. -/
theorem IrqOrder.mono (h : IrqOrder c) (hirq : c'.irq = c.irq)
    (hset : c.Settled → c'.Settled) (hnext : c'.nextTaskIdx = c.nextTaskIdx)
    (hlog : c'.log = c.log) (hwoken : c'.woken = c.woken)
    (hmask : c.intMask = false → c'.intMask = false)
    (hexec : c.exec = none → c'.exec = none)
    (hraw : c.rawStatus = false → c'.rawStatus = false) : IrqOrder c' := by
  have hdone (j k : ℕ) (hd : c.tasksDone j k) : c'.tasksDone j k := by
    unfold Core.tasksDone at hd ⊢
    rwa [hlog]
  unfold IrqOrder at h ⊢
  rw [hirq, hwoken, hnext]
  cases hi : c.irq <;> simp only [hi] at h ⊢
  case entered => exact ⟨hset h.1, hmask h.2.1, h.2.2⟩
  case disabled => exact ⟨hset h.1, hmask h.2.1, h.2.2.1, hexec h.2.2.2⟩
  case cleared | locked =>
    exact ⟨hset h.1, hmask h.2.1, h.2.2.1, hexec h.2.2.2.1, hraw h.2.2.2.2⟩
  case submit j p =>
    intro hp
    obtain ⟨h1, h2, h3, h4, h5⟩ := h hp
    exact ⟨h1, hexec h2, hraw h3, fun hc => hdone _ _ (h4 hc), fun k hk => hdone _ _ (h5 k hk)⟩
  case finishing j | detached j | signalled j =>
    exact ⟨hexec h.1, hraw h.2.1, hdone _ _ h.2.2⟩

theorem Order.schedule {job : ℕ} {fail : Bool} (ho : Order jobs c)
    (h : Move jobs c (.schedule job fail) c') : Order jobs c' := by
  cases h
  case dropped => exact { ho with }
  case scheduled => exact { ho with
    runSubmit := by simp }

theorem Order.stored {job : ℕ} {fail : Bool} (hw : Wf jobs c) (ho : Order jobs c)
    (hc : noLateThread c (.run fail) = true) (hp : c.run = .locked job) :
    Order jobs { c with inFlightJob := some job, busy := true, run := .submit job .check } := by
  have hirq := (hw.locks.irq_outside (by simp [hp, RunPc.holds])).1
  obtain ⟨hwoken, hunt⟩ : c.woken = false ∧ c.irq.untested = false := by
    simpa [noLateThread, hp] using hc
  have hnone : c.inFlightJob = none := by
    by_contra hf
    obtain ⟨j, hf⟩ := Option.ne_none_iff_exists'.mp hf
    have hsig := hw.sched.flight_of_starting job j (by simp [hp, RunPc.starting]) hf
    simp [hsig, IrqPc.holds] at hirq
  have hdirty : c.reset.dirty = false := by
    by_contra hd
    have hstop : c.stopped = true := by
      rw [hw.sched.stops]
      revert hd
      cases c.reset <;> simp [ResetPc.dirty, ResetPc.stops]
    simpa [hp] using hw.sched.runIdle hstop
  obtain ⟨hexec, hraw⟩ := ho.idle hnone hdirty
  exact { ho with
    exec := by simp [hexec]
    idle := by simp
    raw := by simp [hraw]
    woken := by simp [hwoken]
    irq := .of_idle (IrqPc.eq_idle hirq hunt)
    runSubmit := fun _ _ _ _ => ⟨hexec, hraw, hwoken, hunt⟩ }

/-- `rocket_job_run` submits the first task: no IRQ thread is about. -/
theorem Order.runSubmits {job : ℕ} {p p' : SubmitPc} {d : Core} (hw : Wf jobs c)
    (ho : Order jobs c) (hp : c.run = .submit job p) (hm : SubmitMove job c p p' d) :
    Order jobs { d with run := .submit job p' } := by
  have hirq := (hw.locks.irq_outside (by simp [hp, RunPc.holds])).1
  have hex := ho.runSubmit job p hp
  obtain ⟨hf, -, htask⟩ := hw.sched.runSubmit job p hp
  have hidle (hb : p.before = true) : c.irq = .idle := IrqPc.eq_idle hirq (hex hb).2.2.2
  cases hm
  case skip => exact { ho with
    runSubmit := by simp [SubmitPc.before] }
  case take =>
    obtain ⟨hexec, hraw, hwoken, hunt⟩ := hex rfl
    exact { ho with
      exec := by simp [hexec]
      raw := by simp [hraw]
      woken := by simp [hwoken]
      irq := .of_idle (hidle rfl)
      runSubmit := fun _ _ _ _ => ⟨hexec, hraw, hwoken, hunt⟩ }
  case mask =>
    obtain ⟨hexec, hraw, hwoken, hunt⟩ := hex rfl
    exact { ho with
      woken := by simp [hwoken]
      irq := .of_idle (hidle rfl)
      runSubmit := fun _ _ _ _ => ⟨hexec, hraw, hwoken, hunt⟩ }
  case clear =>
    obtain ⟨hexec, -, hwoken, hunt⟩ := hex rfl
    exact { ho with
      exec := by simp [hexec]
      idle := by simp [hf]
      raw := by simp
      irq := .of_idle (hidle rfl)
      runSubmit := fun _ _ _ _ => ⟨hexec, rfl, hwoken, hunt⟩ }
  case enable k =>
    obtain ⟨-, hraw, hwoken, -⟩ := hex rfl
    obtain ⟨rfl, hone, _⟩ := htask k rfl
    exact { ho with
      log := ⟨by simp, ho.log⟩
      exec := by
        rintro j k' he
        obtain ⟨rfl, rfl⟩ := Prod.mk.inj (Option.some.inj he)
        exact ⟨hraw, hone, fun i hi => absurd hi (Nat.not_lt_zero i), .inl hf⟩
      idle := by simp [hf]
      raw := by simp [hraw]
      woken := by simp [hwoken]
      irq := .of_idle (hidle rfl)
      runSubmit := by simp [SubmitPc.before] }

theorem Order.run {fail : Bool} (hw : Wf jobs c) (ho : Order jobs c)
    (hc : noLateThread c (.run fail) = true) (h : Move jobs c (.run fail) c') :
    Order jobs c' := by
  cases h
  case resumeFailed | attachFailed | resumed | attached | runLocked | runUnlocked =>
    exact { ho with
      runSubmit := by simp }
  case stored job hp => exact ho.stored hw hc hp
  case runSubmit job p p' d hp hm => exact ho.runSubmits hw hp hm

/-- The IRQ thread submits the next task, with the one before it completed. -/
theorem Order.irqSubmits {job : ℕ} {p p' : SubmitPc} {d : Core} (hw : Wf jobs c)
    (ho : Order jobs c) (hp : c.irq = .submit job p) (hm : SubmitMove job c p p' d) :
    Order jobs { d with irq := .submit job p' } := by
  have hi := ho.irq
  have hout := hw.locks.run_outside (.inl (by simp [hp, IrqPc.holds]))
  obtain ⟨hf, -, htask⟩ := hw.sched.irqSubmit job p hp
  simp only [IrqOrder, hp] at hi
  cases hm
  case skip => exact { ho with
    irq := fun hb => by cases hb
    runSubmit := by simpa [IrqPc.untested, hp] using ho.runSubmit }
  case take =>
    obtain ⟨hwoken, hexec, hraw, hdone, -⟩ := hi rfl
    have htaken (k : ℕ) (hk : some (c.nextTaskIdx job) = some k) : c.tasksDone job k :=
      Option.some.inj hk ▸ hdone rfl
    exact { ho with
      exec := by simp [hexec]
      raw := by simp [hraw]
      woken := by simp [hwoken]
      irq := fun _ => ⟨hwoken, hexec, hraw, by simp, htaken⟩
      runSubmit := by simp [RunPc.ne_submit hout] }
  case mask k =>
    obtain ⟨hwoken, hexec, hraw, -, hdone⟩ := hi rfl
    exact { ho with
      woken := by simp [hwoken]
      irq := fun _ => ⟨hwoken, hexec, hraw, by simp, hdone⟩
      runSubmit := by simp [RunPc.ne_submit hout] }
  case clear k =>
    obtain ⟨hwoken, hexec, hraw, -, hdone⟩ := hi rfl
    exact { ho with
      exec := by simp [hexec]
      idle := by simp [hexec]
      raw := by simp
      irq := fun _ => ⟨hwoken, hexec, rfl, by simp, hdone⟩
      runSubmit := by simp [RunPc.ne_submit hout] }
  case enable k =>
    obtain ⟨hwoken, hexec, hraw, -, hdone⟩ := hi rfl
    have hlog : ∀ i, k = i + 1 → Event.completed job i ∈ c.log := fun i hi =>
      hdone k rfl i (by omega)
    exact { ho with
      log := ⟨hlog, ho.log⟩
      exec := by
        rintro j k' he
        obtain ⟨rfl, rfl⟩ := Prod.mk.inj (Option.some.inj he)
        exact ⟨hraw, (htask k rfl).1, (hdone k rfl).cons _, .inl hf⟩
      idle := by simp [hf]
      raw := by simp [hraw]
      woken := by simp [hwoken]
      irq := fun hb => by cases hb
      runSubmit := by simp [RunPc.ne_submit hout] }

theorem Order.signals {job : ℕ} (hw : Wf jobs c) (ho : Order jobs c)
    (hp : c.irq = .detached job) :
    Order jobs { c with
      current := if c.current = some job then none else c.current
      log := .signalled job :: c.log
      irq := .signalled job } := by
  have hi := ho.irq
  simp only [IrqOrder, hp] at hi
  obtain ⟨hexec, hraw, hdone⟩ := hi
  obtain ⟨hf, hlast⟩ := hw.sched.closing job (by simp [hp, IrqPc.closing])
  have hout := hw.locks.run_outside (.inl (by simp [hp, IrqPc.holds]))
  exact { ho with
    log := ⟨fun k hk => hdone k (by omega), ho.log⟩
    exec := by simp [hexec]
    raw := by simp [hraw]
    woken := fun h => ⟨fun j hj => ((ho.woken h).1 j hj).cons _, (ho.woken h).2⟩
    irq := ⟨hexec, hraw, hdone.cons _⟩
    runSubmit := by simp [RunPc.ne_submit hout] }

theorem Order.irqMove (hw : Wf jobs c) (ho : Order jobs c) (h : Move jobs c .irq c') :
    Order jobs c' := by
  have hi := ho.irq
  cases h
  case disabled hp =>
    simp only [IrqOrder, hp] at hi
    exact { ho with
      exec := by simp
      idle := fun h1 h2 => ⟨rfl, (ho.idle h1 h2).2⟩
      irq := ⟨hi.1, hi.2.1, hi.2.2, rfl⟩
      runSubmit := by simpa [IrqPc.untested, hp] using ho.runSubmit }
  case cleared hp =>
    simp only [IrqOrder, hp] at hi
    exact { ho with
      exec := by simp [hi]
      idle := fun h1 h2 => ⟨(ho.idle h1 h2).1, rfl⟩
      raw := by simp
      irq := ⟨hi.1, hi.2.1, hi.2.2.1, hi.2.2.2, rfl⟩
      runSubmit := by simpa [IrqPc.untested, hp] using ho.runSubmit }
  case irqLocked hp _ =>
    simp only [IrqOrder, hp] at hi
    exact { ho with
      irq := hi
      runSubmit := by simpa [IrqPc.untested, hp] using ho.runSubmit }
  case nothingInFlight hp _ => exact { ho with
    irq := trivial
    runSubmit := fun j p h hb => by simpa [IrqPc.untested, hp] using (ho.runSubmit j p h hb).2.2.2 }
  case irqSubmitted hp | irqUnlocked hp => exact { ho with
    irq := trivial
    runSubmit := by simpa [IrqPc.untested, hp] using ho.runSubmit }
  case nextTask job hp hf _ =>
    simp only [IrqOrder, hp] at hi
    obtain ⟨hset, -, hwoken, hexec, hraw⟩ := hi
    exact { ho with
      irq := fun _ => ⟨hwoken, hexec, hraw, fun _ => hset job hf, fun k hk => by cases hk⟩
      runSubmit := fun j p h hb => by
        simpa [IrqPc.untested, hp] using (ho.runSubmit j p h hb).2.2.2 }
  case lastTask job hp hf _ =>
    simp only [IrqOrder, hp] at hi
    exact { ho with
      irq := ⟨hi.2.2.2.1, hi.2.2.2.2, hi.1 job hf⟩
      runSubmit := by simp [IrqPc.untested, hi] }
  case irqSubmit job p p' d hp hm => exact ho.irqSubmits hw hp hm
  case irqDetached job hp =>
    simp only [IrqOrder, hp] at hi
    exact { ho with
      irq := hi
      runSubmit := by simpa [IrqPc.untested, hp] using ho.runSubmit }
  case signalled job hp => exact ho.signals hw hp
  case finished job hp =>
    simp only [IrqOrder, hp] at hi
    have hout := hw.locks.run_outside (.inl (by simp [hp, IrqPc.holds]))
    exact { ho with
      exec := by simp [hi]
      idle := fun _ _ => ⟨hi.1, hi.2.1⟩
      raw := by simp [hi]
      woken := fun h => ⟨by simp [Core.Settled], (ho.woken h).2⟩
      irq := trivial
      runSubmit := by simp [RunPc.ne_submit hout] }

/-- What the order says of a running task does not depend on how far the reset has got. -/
theorem Order.exec_of (ho : Order jobs c) {j k : ℕ} (he : c.exec = some (j, k)) :
    c.rawStatus = false ∧ c.nextTaskIdx j = k + 1 ∧ c.tasksDone j k :=
  ⟨(ho.exec j k he).1, (ho.exec j k he).2.1, (ho.exec j k he).2.2.1⟩

theorem Order.flight (ho : Order jobs c) {j k : ℕ} (he : c.exec = some (j, k))
    (hd : c.reset.dirty = false) : c.inFlightJob = some j := by
  simpa [hd] using (ho.exec j k he).2.2.2

theorem Order.resetMove (hw : Wf jobs c) (ho : Order jobs c) (h : Move jobs c .reset c') :
    Order jobs c' := by
  cases h
  case forgotten hp =>
    have hout := hw.locks.run_outside (.inr (by simp [hp, ResetPc.holds]))
    have hnone : ({ c with inFlightJob := none, busy := false, reset := .forgotten } :
        Core).Settled := by simp [Core.Settled]
    exact { ho with
      exec := fun j k he => ⟨(ho.exec_of he).1, (ho.exec_of he).2.1, (ho.exec_of he).2.2, .inr rfl⟩
      idle := by simp [ResetPc.dirty]
      raw := fun _ => hnone
      woken := fun h => ⟨hnone, (ho.woken h).2⟩
      irq := ho.irq.mono rfl (fun _ => hnone) rfl rfl rfl id id id }
  case resetUnlocked hp => exact { ho with
    exec := fun j k he => ⟨(ho.exec_of he).1, (ho.exec_of he).2.1, (ho.exec_of he).2.2, .inr rfl⟩
    idle := by simp [ResetPc.dirty]
    irq := ho.irq.mono rfl id rfl rfl rfl id id id }
  case coreReset hp => exact { ho with
    exec := by simp
    idle := fun _ _ => ⟨rfl, rfl⟩
    raw := by simp
    woken := fun h => ⟨(ho.woken h).1, rfl⟩
    irq := ho.irq.mono rfl id rfl rfl rfl (fun _ => rfl) (fun _ => rfl) fun _ => rfl
    runSubmit := fun j p h hb => ⟨rfl, rfl, (ho.runSubmit j p h hb).2.2⟩ }
  case schedStopped hp _ | resetLocked hp _ | balanced hp | resetDetached hp | resetDone hp |
      schedStarted hp =>
    have hd : c.reset.dirty = false := by simp [hp, ResetPc.dirty]
    exact { ho with
      exec := fun j k he => ⟨(ho.exec_of he).1, (ho.exec_of he).2.1, (ho.exec_of he).2.2,
        .inl (ho.flight he hd)⟩
      idle := fun hf _ => ho.idle hf hd
      irq := ho.irq.mono rfl id rfl rfl rfl id id id }

/-- A completion raises the interrupt status, and settles the job in flight. -/
theorem Order.complete (hw : Wf jobs c) (ho : Order jobs c) {job k : ℕ}
    (he : c.exec = some (job, k)) :
    Order jobs { c with exec := none, rawStatus := true, log := .completed job k :: c.log } := by
  obtain ⟨hraw, hnext, hdone⟩ := ho.exec_of he
  have hset : ({ c with exec := none, rawStatus := true, log := .completed job k :: c.log } :
      Core).Settled := by
    intro j hj i hi
    change i < c.nextTaskIdx j at hi
    have hjob : j = job := by
      rcases (ho.exec job k he).2.2.2 with hf | hd
      · exact Option.some.inj (hj.symm.trans hf)
      · have hf := hw.sched.forgot (by revert hd; cases c.reset <;> simp [ResetPc.dirty,
          ResetPc.forgot])
        exact absurd (hf.symm.trans hj) (by simp)
    subst hjob
    rw [hnext] at hi
    rcases Nat.lt_succ_iff_lt_or_eq.mp hi with hi | rfl
    · exact hdone.cons _ i hi
    · exact List.mem_cons_self
  have hirq : IrqOrder { c with
      exec := none, rawStatus := true, log := .completed job k :: c.log } := by
    have h := ho.irq
    unfold IrqOrder at h ⊢
    cases hi : c.irq <;> simp only [hi, he] at h ⊢
    case entered => exact ⟨hset, h.2⟩
    case submit j p => exact fun hb => absurd (h hb).2.1 (by simp)
    all_goals simp at h
  have hidle : c.inFlightJob = none → c.reset.dirty = false → False := by
    intro h1 h2
    simpa [he] using (ho.idle h1 h2).1
  exact { ho with
    exec := by simp
    idle := fun h1 h2 => (hidle h1 h2).elim
    raw := fun _ => hset
    woken := fun h => ⟨hset, (ho.woken h).2⟩
    irq := hirq
    runSubmit := fun j p h hb => by simpa [he] using (ho.runSubmit j p h hb).1 }

theorem Order.hardIrq (ho : Order jobs c) (hraw : c.rawStatus = true)
    (hmask : c.intMask = true) : Order jobs { c with intMask := false, woken := true } := by
  have hirq : IrqOrder { c with intMask := false, woken := true } := by
    have h := ho.irq
    unfold IrqOrder at h ⊢
    cases hi : c.irq <;> simp only [hi, hraw, hmask] at h ⊢
    case submit j p => exact fun hb => absurd (h hb).2.2.1 (by simp)
    all_goals simp at h
  exact { ho with
    woken := fun _ => ⟨ho.raw hraw, rfl⟩
    irq := hirq
    runSubmit := fun j p h hb => by simpa [hraw] using (ho.runSubmit j p h hb).2.1 }

theorem Order.move {a : Act} (hw : Wf jobs c) (ho : Order jobs c)
    (hc : noLateThread c a = true) (ha : a ≠ .irqThread true) (h : Move jobs c a c') :
    Order jobs c' := by
  cases a with
  | schedule job fail => exact ho.schedule h
  | run fail => exact ho.run hw hc h
  | irq => exact ho.irqMove hw h
  | reset => exact ho.resetMove hw h
  | irqThread spurious =>
    cases h with
    | entered hp hwoken =>
      have hw' : c.woken = true := by
        rcases hwoken with hw' | hs
        · exact hw'
        · exact absurd (congrArg _ hs) ha
      obtain ⟨hset, hmask⟩ := ho.woken hw'
      exact { ho with
        woken := by simp
        irq := ⟨hset, hmask, rfl⟩
        runSubmit := fun j p h hb => by simpa [hw'] using (ho.runSubmit j p h hb).2.2.1 }
  | timeout job =>
    cases h with
    | timedOut hp _ =>
      have hd : c.reset.dirty = false := by simp [hp, ResetPc.dirty]
      exact { ho with
        exec := fun j k he => ⟨(ho.exec_of he).1, (ho.exec_of he).2.1, (ho.exec_of he).2.2,
          .inl (ho.flight he hd)⟩
        idle := fun hf _ => ho.idle hf hd
        irq := ho.irq.mono rfl id rfl rfl rfl id id id }
  | hardIrq =>
    cases h with
    | woken hraw hmask => exact ho.hardIrq hraw hmask
  | complete =>
    cases h with
    | completed he => exact ho.complete hw he

/-- In every run that meets the condition, on a core bound with nothing in flight, a task is
started only after the one before it was completed, and a job signalled only after all its tasks
were. -/
theorem inOrder_of_noLateThread
    (h : Reachable (· = Core.init) (restrict (Posted jobs) fun c a => noLateThread c a) c) :
    InOrder jobs.taskCount c.log := by
  suffices hi : Wf jobs c ∧ Order jobs c from hi.2.log
  apply h.invariant (I := fun c => Wf jobs c ∧ Order jobs c)
  · rintro c rfl
    exact ⟨⟨.init, .init⟩, .init⟩
  · intro c a c' hi hs
    exact ⟨hi.1.step hs.1.1, hi.2.move hi.1 hs.2 hs.1.2 hs.1.1.move⟩

/-- The steps of `Posted`. -/
def postedStep (jobs : Jobs) (c : Core) (a : Act) : Option Core :=
  if a = .irqThread true then none else c.step jobs a

theorem postedStep_posted (c : Core) (a : Act) (c' : Core)
    (h : postedStep jobs c a = some c') : Posted jobs c a c' := by
  unfold postedStep at h
  split_ifs at h with ha
  exact ⟨h, ha⟩

/-- A job of one task that runs to its end. -/
def wholeJob : List Act :=
  startJob ++ [.complete, .hardIrq, .irqThread false] ++ List.replicate 8 .irq

def twoTasks : Jobs := ⟨fun _ => 0, fun _ => 2⟩

/-- A job of two tasks that runs to its end. -/
def bothTasks : List Act :=
  startJob ++ [.complete, .hardIrq, .irqThread false] ++ List.replicate 10 .irq ++
    [.complete, .hardIrq, .irqThread false] ++ List.replicate 8 .irq

theorem inOrder_wholeJob :
    ∃ c, bothTasks.foldlM (fun c a => if noLateThread c a then postedStep twoTasks c a else none)
        Core.init = some c ∧
      c.log = [.signalled 0, .completed 0 1, .started 0 1, .completed 0 0, .started 0 0] ∧
      InOrder twoTasks.taskCount c.log := by
  have h0 : Reachable (· = Core.init)
      (restrict (Posted twoTasks) fun c a => noLateThread c a) Core.init := .start rfl
  have hend : (bothTasks.foldlM
      (fun c a => if noLateThread c a then postedStep twoTasks c a else none) Core.init).map
      Core.log =
        some [.signalled 0, .completed 0 1, .started 0 1, .completed 0 0, .started 0 0] := rfl
  obtain ⟨c, hc, hlog⟩ := Option.map_eq_some_iff.mp hend
  refine ⟨c, hc, hlog, inOrder_of_noLateThread (h0.foldlM (fun c a c' h => ?_) hc)⟩
  split_ifs at h with hl
  exact ⟨postedStep_posted c a c' h, hl⟩

/-- The thread woken for a job runs after that job's reset, when the next one has started. -/
def lateThread : List Act :=
  startJob ++ [.complete, .hardIrq, .timeout 0] ++ List.replicate 9 .reset ++
    .schedule 1 false :: List.replicate 9 (.run false) ++ .irqThread false :: List.replicate 6 .irq

theorem not_inOrder :
    ∃ c, Reachable (· = Core.init) (Posted oneTask) c ∧
      c.log = [.signalled 1, .started 1 0, .completed 0 0, .started 0 0] ∧
      ¬ InOrder oneTask.taskCount c.log := by
  have h0 : Reachable (· = Core.init) (Posted oneTask) Core.init := .start rfl
  have hend : (lateThread.foldlM (postedStep oneTask) Core.init).map Core.log =
      some [.signalled 1, .started 1 0, .completed 0 0, .started 0 0] := rfl
  obtain ⟨c, hc, hlog⟩ := Option.map_eq_some_iff.mp hend
  refine ⟨c, h0.foldlM postedStep_posted hc, hlog, fun h => ?_⟩
  rw [hlog] at h
  simpa using h.1 0 (by decide)

end RocketNpu.Job
