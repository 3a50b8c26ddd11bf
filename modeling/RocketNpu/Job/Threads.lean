import Mathlib.Data.Nat.Notation
import RocketNpu.Job.Core

namespace RocketNpu.Job
open Runs

variable {jobs : Jobs} {c c' : Core}

/-- What one step of `rocket_job_hw_submit` can do. -/
inductive SubmitMove (job : ℕ) (c : Core) : SubmitPc → SubmitPc → Core → Prop where
  | skip : c.resetPending = true → SubmitMove job c .check .fin c
  | take : c.resetPending = false →
      SubmitMove job c .check (.intMask (c.nextTaskIdx job)) { c with
        nextTaskIdx := Function.update c.nextTaskIdx job (c.nextTaskIdx job + 1) }
  | mask (k : ℕ) : SubmitMove job c (.intMask k) (.intClear k) { c with intMask := true }
  | clear (k : ℕ) :
      SubmitMove job c (.intClear k) (.operationEnable k) { c with rawStatus := false }
  | enable (k : ℕ) : SubmitMove job c (.operationEnable k) .fin
      { c with exec := some (job, k), log := .started job k :: c.log }

/-- What one step can do. -/
inductive Move (jobs : Jobs) (c : Core) : Act → Core → Prop where
  | dropped {job : ℕ} {fail : Bool} : c.run = .idle → c.stopped = false → c.current = none →
      c.taken job = false →
      Move jobs c (.schedule job fail) { c with taken := Function.update c.taken job true }
  | scheduled {job : ℕ} : c.run = .idle → c.stopped = false → c.current = none →
      c.taken job = false → c.nextTaskIdx job ≠ jobs.taskCount job →
      Move jobs c (.schedule job false) { c with
        taken := Function.update c.taken job true
        current := some job
        run := .fenced job }
  | resumeFailed {job : ℕ} : c.run = .fenced job →
      Move jobs c (.run true) { c with usage := c.usage + 1, run := .idle }
  | resumed {job : ℕ} : c.run = .fenced job →
      Move jobs c (.run false) { c with usage := c.usage + 1, run := .powered job }
  | attachFailed {job : ℕ} {fail : Bool} : c.run = .powered job →
      fail = true ∨ c.group.isSome = true → Move jobs c (.run fail) { c with run := .idle }
  | attached {job : ℕ} : c.run = .powered job → c.group = none →
      Move jobs c (.run false)
        { c with group := some (jobs.domain job), run := .attached job }
  | runLocked {job : ℕ} {fail : Bool} : c.run = .attached job → c.jobLock = none →
      Move jobs c (.run fail) { c with jobLock := some .run, run := .locked job }
  | stored {job : ℕ} {fail : Bool} : c.run = .locked job →
      Move jobs c (.run fail)
        { c with inFlightJob := some job, busy := true, run := .submit job .check }
  | runSubmit {job : ℕ} {fail : Bool} {p p' : SubmitPc} {d : Core} : c.run = .submit job p →
      SubmitMove job c p p' d → Move jobs c (.run fail) { d with run := .submit job p' }
  | runUnlocked {job : ℕ} {fail : Bool} : c.run = .submit job .fin →
      Move jobs c (.run fail) { c with jobLock := none, run := .idle }
  | entered {spurious : Bool} : c.irq = .idle → c.woken ∨ spurious →
      Move jobs c (.irqThread spurious) { c with woken := false, irq := .entered }
  | disabled : c.irq = .entered → Move jobs c .irq { c with exec := none, irq := .disabled }
  | cleared : c.irq = .disabled →
      Move jobs c .irq { c with rawStatus := false, irq := .cleared }
  | irqLocked : c.irq = .cleared → c.jobLock = none →
      Move jobs c .irq { c with jobLock := some .irq, irq := .locked }
  | nothingInFlight : c.irq = .locked → c.inFlightJob = none →
      Move jobs c .irq { c with irq := .leaving }
  | nextTask {job : ℕ} : c.irq = .locked → c.inFlightJob = some job →
      c.nextTaskIdx job < jobs.taskCount job →
      Move jobs c .irq { c with irq := .submit job .check }
  | lastTask {job : ℕ} : c.irq = .locked → c.inFlightJob = some job →
      jobs.taskCount job ≤ c.nextTaskIdx job →
      Move jobs c .irq { c with irq := .finishing job }
  | irqSubmit {job : ℕ} {p p' : SubmitPc} {d : Core} : c.irq = .submit job p →
      SubmitMove job c p p' d → Move jobs c .irq { d with irq := .submit job p' }
  | irqSubmitted {job : ℕ} : c.irq = .submit job .fin →
      Move jobs c .irq { c with irq := .leaving }
  | irqDetached {job : ℕ} : c.irq = .finishing job →
      Move jobs c .irq { c with
        groupRefs := c.groupRefs + 1, group := none, irq := .detached job }
  | signalled {job : ℕ} : c.irq = .detached job →
      Move jobs c .irq { c with
        current := if c.current = some job then none else c.current
        log := .signalled job :: c.log
        irq := .signalled job }
  | finished {job : ℕ} : c.irq = .signalled job →
      Move jobs c .irq { c with
        usage := c.usage - 1, inFlightJob := none, busy := false, irq := .leaving }
  | irqUnlocked : c.irq = .leaving → Move jobs c .irq { c with jobLock := none, irq := .idle }
  | timedOut {job : ℕ} : c.reset = .idle → c.taken job = true →
      Move jobs c (.timeout job) { c with resetPending := true, reset := .timedOut }
  | schedStopped : c.reset = .timedOut → c.run = .idle →
      Move jobs c .reset { c with stopped := true, reset := .stopped }
  | resetLocked : c.reset = .stopped → c.jobLock = none →
      Move jobs c .reset { c with jobLock := some .reset, reset := .locked }
  | balanced : c.reset = .locked →
      Move jobs c .reset { c with
        usage := if c.inFlightJob.isSome then c.usage - 1 else c.usage
        reset := .balanced }
  | resetDetached : c.reset = .balanced →
      Move jobs c .reset { c with group := none, reset := .detached }
  | forgotten : c.reset = .detached →
      Move jobs c .reset { c with inFlightJob := none, busy := false, reset := .forgotten }
  | resetUnlocked : c.reset = .forgotten →
      Move jobs c .reset { c with jobLock := none, reset := .unlocked }
  | coreReset : c.reset = .unlocked →
      Move jobs c .reset { c with
        exec := none, rawStatus := false, intMask := false, reset := .coreReset }
  | resetDone : c.reset = .coreReset →
      Move jobs c .reset { c with resetPending := false, reset := .ready }
  | schedStarted : c.reset = .ready →
      Move jobs c .reset { c with stopped := false, current := none, reset := .idle }
  | woken : c.rawStatus = true → c.intMask = true →
      Move jobs c .hardIrq { c with intMask := false, woken := true }
  | completed {job k : ℕ} : c.exec = some (job, k) →
      Move jobs c .complete { c with
        exec := none, rawStatus := true, log := .completed job k :: c.log }

theorem rocketJobHwSubmit_move (job : ℕ) {p : SubmitPc} (hp : p ≠ .fin) (c : Core) :
    SubmitMove job c p (rocketJobHwSubmit job p c).1 (rocketJobHwSubmit job p c).2 := by
  cases p with
  | check =>
    simp only [rocketJobHwSubmit]
    split_ifs with h
    · exact .skip h
    · exact .take (by simpa using h)
  | intMask k => exact .mask k
  | intClear k => exact .clear k
  | operationEnable k => exact .enable k
  | fin => exact absurd rfl hp

theorem schedule_move {job : ℕ} {fail : Bool} (h : schedule jobs job fail c = some c') :
    Move jobs c (.schedule job fail) c' := by
  unfold schedule at h
  split_ifs at h with hg hf
  · obtain ⟨h1, h2, h3, h4⟩ := hg
    cases h
    exact .dropped h1 h2 h3 h4
  · obtain ⟨h1, h2, h3, h4⟩ := hg
    obtain ⟨hfail, hidx⟩ := not_or.mp hf
    obtain rfl : fail = false := by simpa using hfail
    cases h
    exact .scheduled h1 h2 h3 h4 hidx

theorem rocketJobRun_move {fail : Bool} (h : rocketJobRun jobs fail c = some c') :
    Move jobs c (.run fail) c' := by
  unfold rocketJobRun at h
  split at h
  · cases h
  · next job heq =>
    cases h
    cases fail
    · exact .resumed heq
    · exact .resumeFailed heq
  · next job heq =>
    split_ifs at h with hf
    · cases h
      exact .attachFailed heq hf
    · obtain ⟨hfail, hgroup⟩ := not_or.mp hf
      obtain rfl : fail = false := by simpa using hfail
      cases h
      exact .attached heq (by simpa using hgroup)
  · next job heq =>
    split_ifs at h with hl
    cases h
    exact .runLocked heq hl
  · next job heq =>
    cases h
    exact .stored heq
  · next job heq =>
    cases h
    exact .runUnlocked heq
  · next job p hp heq =>
    cases h
    exact .runSubmit heq (rocketJobHwSubmit_move job hp c)

theorem rocketJobHandleIrq_move (h : rocketJobHandleIrq jobs c = some c') :
    Move jobs c .irq c' := by
  unfold rocketJobHandleIrq at h
  split at h
  · cases h
  · next heq =>
    cases h
    exact .disabled heq
  · next heq =>
    cases h
    exact .cleared heq
  · next heq =>
    split_ifs at h with hl
    cases h
    exact .irqLocked heq hl
  · next heq =>
    split at h
    · next hn =>
      cases h
      exact .nothingInFlight heq hn
    · next job hj =>
      cases h
      split_ifs with hlt
      · exact .nextTask heq hj hlt
      · exact .lastTask heq hj (Nat.le_of_not_lt hlt)
  · next job heq =>
    cases h
    exact .irqSubmitted heq
  · next job p hp heq =>
    cases h
    exact .irqSubmit heq (rocketJobHwSubmit_move job hp c)
  · next job heq =>
    cases h
    exact .irqDetached heq
  · next job heq =>
    cases h
    exact .signalled heq
  · next job heq =>
    cases h
    exact .finished heq
  · next heq =>
    cases h
    exact .irqUnlocked heq

theorem rocketReset_move (h : rocketReset c = some c') : Move jobs c .reset c' := by
  unfold rocketReset at h
  split at h
  · cases h
  · next heq =>
    split_ifs at h with hr
    cases h
    exact .schedStopped heq hr
  · next heq =>
    split_ifs at h with hl
    cases h
    exact .resetLocked heq hl
  · next heq =>
    cases h
    exact .balanced heq
  · next heq =>
    cases h
    exact .resetDetached heq
  · next heq =>
    cases h
    exact .forgotten heq
  · next heq =>
    cases h
    exact .resetUnlocked heq
  · next heq =>
    cases h
    exact .coreReset heq
  · next heq =>
    cases h
    exact .resetDone heq
  · next heq =>
    cases h
    exact .schedStarted heq

/-- Every step is one of the moves. -/
theorem Step.move {a : Act} (h : Step jobs c a c') : Move jobs c a c' := by
  unfold Step Core.step at h
  cases a with
  | schedule job fail => exact schedule_move h
  | run fail => exact rocketJobRun_move h
  | irqThread spurious =>
    simp only [rocketJobIrqHandlerThread] at h
    split_ifs at h with hg
    cases h
    exact .entered hg.1 hg.2
  | irq => exact rocketJobHandleIrq_move h
  | timeout job =>
    simp only [timeout] at h
    split_ifs at h with hg
    cases h
    exact .timedOut hg.1 hg.2
  | reset => exact rocketReset_move h
  | hardIrq =>
    simp only [rocketJobIrqHandler] at h
    split_ifs at h with hg
    cases h
    exact .woken hg.1 hg.2
  | complete =>
    simp only [complete] at h
    split at h
    · cases h
    · next job k heq =>
      cases h
      exact .completed heq

def RunPc.holds : RunPc → Bool
  | .locked _ | .submit _ _ => true
  | _ => false

def IrqPc.holds : IrqPc → Bool
  | .idle | .entered | .disabled | .cleared => false
  | _ => true

def ResetPc.holds : ResetPc → Bool
  | .locked | .balanced | .detached | .forgotten => true
  | _ => false

/-- From `drm_sched_stop` to `drm_sched_start`. -/
def ResetPc.stops : ResetPc → Bool
  | .idle | .timedOut => false
  | _ => true

/-- The job `rocket_job_run` has not stored yet. -/
def RunPc.starting : RunPc → Option ℕ
  | .fenced job | .powered job | .attached job | .locked job => some job
  | _ => none

/-- The task a submission has taken and not started. -/
def SubmitPc.task : SubmitPc → Option ℕ
  | .intMask k | .intClear k | .operationEnable k => some k
  | _ => none

/-- The job the IRQ thread found to be over. -/
def IrqPc.closing : IrqPc → Option ℕ
  | .finishing job | .detached job | .signalled job => some job
  | _ => none

/-- `job_lock` is held by the thread that is in its section, and by no other. -/
structure Locks (c : Core) : Prop where
  run : c.jobLock = some .run ↔ c.run.holds = true
  irq : c.jobLock = some .irq ↔ c.irq.holds = true
  reset : c.jobLock = some .reset ↔ c.reset.holds = true

theorem Locks.init : Locks Core.init := by
  constructor <;> simp [Core.init, RunPc.holds, IrqPc.holds, ResetPc.holds]

theorem SubmitMove.jobLock {job : ℕ} {p p' : SubmitPc} {d : Core} (h : SubmitMove job c p p' d) :
    d.jobLock = c.jobLock ∧ d.run = c.run ∧ d.irq = c.irq ∧ d.reset = c.reset := by
  cases h <;> exact ⟨rfl, rfl, rfl, rfl⟩

theorem Locks.move {a : Act} (hl : Locks c) (h : Move jobs c a c') : Locks c' := by
  obtain ⟨h1, h2, h3⟩ := hl
  cases h
  case runSubmit hp hs =>
    obtain ⟨k1, k2, k3, k4⟩ := hs.jobLock
    constructor <;> simp_all [RunPc.holds, IrqPc.holds, ResetPc.holds]
  case irqSubmit hp hs =>
    obtain ⟨k1, k2, k3, k4⟩ := hs.jobLock
    constructor <;> simp_all [RunPc.holds, IrqPc.holds, ResetPc.holds]
  all_goals constructor <;> simp_all [RunPc.holds, IrqPc.holds, ResetPc.holds]

/-- From the point where `rocket_reset` has dropped the job to `drm_sched_start`. -/
def ResetPc.forgot : ResetPc → Bool
  | .forgotten | .unlocked | .coreReset | .ready => true
  | _ => false

theorem ResetPc.stops_of_forgot {p : ResetPc} (h : p.forgot = true) : p.stops = true := by
  cases p <;> simp [ResetPc.forgot, ResetPc.stops] at h ⊢

/-- Which job each thread, the scheduler and `in_flight_job` are about. -/
structure Sched (jobs : Jobs) (c : Core) : Prop where
  stops : c.stopped = c.reset.stops
  runIdle : c.stopped = true → c.run = .idle
  forgot : c.reset.forgot = true → c.inFlightJob = none
  current : ∀ j, c.inFlightJob = some j → c.current = some j ∨ c.irq = .signalled j
  takenCurrent : ∀ j, c.current = some j → c.taken j = true
  takenFlight : ∀ j, c.inFlightJob = some j → c.taken j = true
  fresh : ∀ j, c.taken j = false → c.nextTaskIdx j = 0
  starting : ∀ j, c.run.starting = some j → c.current = some j ∧ c.nextTaskIdx j = 0 ∧
    0 < jobs.taskCount j ∧ c.inFlightJob ≠ some j
  runSubmit : ∀ j p, c.run = .submit j p → c.inFlightJob = some j ∧
    (p = .check → c.nextTaskIdx j = 0 ∧ 0 < jobs.taskCount j) ∧
    ∀ k, p.task = some k → k = 0 ∧ c.nextTaskIdx j = 1 ∧ 0 < jobs.taskCount j
  irqSubmit : ∀ j p, c.irq = .submit j p → c.inFlightJob = some j ∧
    (p = .check → c.nextTaskIdx j < jobs.taskCount j) ∧
    ∀ k, p.task = some k → c.nextTaskIdx j = k + 1 ∧ k < jobs.taskCount j
  closing : ∀ j, c.irq.closing = some j → c.inFlightJob = some j ∧
    jobs.taskCount j ≤ c.nextTaskIdx j

theorem Sched.init : Sched jobs Core.init := by
  constructor <;> simp [Core.init, ResetPc.stops, ResetPc.forgot, RunPc.starting, IrqPc.closing]

theorem IrqPc.holds_of_closing {p : IrqPc} {j : ℕ} (h : p.closing = some j) :
    p.holds = true := by
  cases p <;> simp [IrqPc.closing, IrqPc.holds] at h ⊢

theorem Locks.irq_outside (hl : Locks c) (h : c.run.holds = true) :
    c.irq.holds = false ∧ c.reset.holds = false := by
  have hrun := hl.run.mpr h
  have hirq := hl.irq
  have hreset := hl.reset
  simp [hrun] at hirq hreset
  exact ⟨hirq, hreset⟩

theorem Locks.run_outside (hl : Locks c) (h : c.irq.holds = true ∨ c.reset.holds = true) :
    c.run.holds = false := by
  by_contra hr
  obtain ⟨h1, h2⟩ := hl.irq_outside (by simpa using hr)
  simp [h1, h2] at h

theorem Locks.reset_inside (hl : Locks c) (h : c.reset.holds = true) : c.irq.holds = false := by
  have hreset := hl.reset.mpr h
  have hirq := hl.irq
  simpa [hreset] using hirq

/-- Outside its section a thread submits nothing. -/
theorem RunPc.ne_submit {r : RunPc} (h : r.holds = false) (j : ℕ) (p : SubmitPc) :
    r ≠ .submit j p := by
  rintro rfl
  cases h

theorem RunPc.ne_locked {r : RunPc} (h : r.holds = false) (j : ℕ) : r ≠ .locked j := by
  rintro rfl
  cases h

theorem ResetPc.ne_detached {r : ResetPc} (h : r.holds = false) : r ≠ .detached := by
  rintro rfl
  cases h

theorem IrqPc.ne_submit {r : IrqPc} (h : r.holds = false) (j : ℕ) (p : SubmitPc) :
    r ≠ .submit j p := by
  rintro rfl
  cases h

theorem IrqPc.closing_ne {r : IrqPc} (h : r.holds = false) (j : ℕ) : r.closing ≠ some j := by
  intro hc
  rw [IrqPc.holds_of_closing hc] at h
  cases h

namespace Sched

/-- A job the scheduler took is not a fresh one. -/
theorem taken_update (job j : ℕ) (taken : ℕ → Bool) :
    Function.update taken job true j = false ↔ j ≠ job ∧ taken j = false := by
  by_cases h : j = job <;> simp [h]

theorem taken_mono {taken : ℕ → Bool} {j : ℕ} (h : taken j = true) (job : ℕ) :
    Function.update taken job true j = true := by
  by_cases hj : j = job <;> simp [hj, h]

theorem running (hs : Sched jobs c) (h : c.run ≠ .idle) : c.stopped = false := by
  by_contra hst
  exact h (hs.runIdle (by simpa using hst))

/-- The counter of the job in flight moves on, and no fresh one. -/
theorem fresh_take (hs : Sched jobs c) {job : ℕ} (hf : c.inFlightJob = some job) (m j : ℕ)
    (hj : c.taken j = false) : Function.update c.nextTaskIdx job m j = 0 := by
  have hne : j ≠ job := by
    rintro rfl
    rw [hs.takenFlight j hf] at hj
    cases hj
  simpa [hne] using hs.fresh j hj

/-- A starting job is not the one in flight. -/
theorem ne_of_starting (hs : Sched jobs c) {j job : ℕ} (h : c.run.starting = some j)
    (hf : c.inFlightJob = some job) : j ≠ job := by
  rintro rfl
  exact (hs.starting j h).2.2.2 hf

/-- While a job is being started nothing is in flight but a job just signalled. -/
theorem flight_of_starting (hs : Sched jobs c) (j j' : ℕ)
    (h : c.run.starting = some j) (hf : c.inFlightJob = some j') : c.irq = .signalled j' := by
  obtain ⟨h1, _, _, h4⟩ := hs.starting j h
  rcases hs.current j' hf with hc | hc
  · rw [h1] at hc
    exact absurd (hc ▸ hf) h4
  · exact hc

theorem starting_dropped (hs : Sched jobs c) (j : ℕ) (h : c.run.starting = some j) :
    c.current = some j ∧ c.nextTaskIdx j = 0 ∧ 0 < jobs.taskCount j ∧ none ≠ some j := by
  obtain ⟨hcur, hidx, hpos, -⟩ := hs.starting j h
  exact ⟨hcur, hidx, hpos, by simp⟩

theorem schedule {job : ℕ} {fail : Bool} (hs : Sched jobs c)
    (h : Move jobs c (.schedule job fail) c') : Sched jobs c' := by
  cases h
  case dropped => exact { hs with
    takenCurrent := fun j hj => taken_mono (hs.takenCurrent j hj) job
    takenFlight := fun j hj => taken_mono (hs.takenFlight j hj) job
    fresh := fun j hj => hs.fresh j ((taken_update job j _).mp hj).2 }
  case scheduled hrun hst hcur hnew hidx =>
    have hzero := hs.fresh job hnew
    exact { hs with
      runIdle := by simp [hst]
      current := fun j hj => .inr ((hs.current j hj).resolve_left (by simp [hcur]))
      takenCurrent := by simp
      takenFlight := fun j hj => taken_mono (hs.takenFlight j hj) job
      fresh := fun j hj => hs.fresh j ((taken_update job j _).mp hj).2
      starting := by
        intro j hj
        obtain rfl := Option.some.inj hj
        refine ⟨rfl, hzero, Nat.pos_of_ne_zero fun h0 => hidx (hzero.trans h0.symm), fun hf => ?_⟩
        rw [hs.takenFlight job hf] at hnew
        cases hnew
      runSubmit := by simp }

theorem runSubmits {job : ℕ} {p p' : SubmitPc} {d : Core} (hl : Locks c) (hs : Sched jobs c)
    (hp : c.run = .submit job p) (hm : SubmitMove job c p p' d) :
    Sched jobs { d with run := .submit job p' } := by
  have hirq := (hl.irq_outside (by simp [hp, RunPc.holds])).1
  have hst := hs.running (by simp [hp])
  have hf := (hs.runSubmit job p hp).1
  cases hm
  case take => exact { hs with
    runIdle := by simp [hst]
    fresh := hs.fresh_take hf _
    starting := by simp [RunPc.starting]
    runSubmit := by simpa [SubmitPc.task, hp] using hs.runSubmit
    irqSubmit := by simp [IrqPc.ne_submit hirq]
    closing := by simp [IrqPc.closing_ne hirq] }
  case mask | clear => exact { hs with
    runIdle := by simp [hst]
    starting := by simp [RunPc.starting]
    runSubmit := by simpa [SubmitPc.task, hp] using hs.runSubmit }
  case skip | enable => exact { hs with
    runIdle := by simp [hst]
    starting := by simp [RunPc.starting]
    runSubmit := by simp [SubmitPc.task, hf] }

theorem run {fail : Bool} (hl : Locks c) (hs : Sched jobs c)
    (h : Move jobs c (.run fail) c') : Sched jobs c' := by
  cases h
  case resumeFailed | attachFailed | runUnlocked => exact { hs with
    runIdle := by simp
    starting := by simp [RunPc.starting]
    runSubmit := by simp }
  case resumed hp | attached hp _ | runLocked hp _ => exact { hs with
    runIdle := by simpa [hp] using hs.runIdle
    starting := by simpa [RunPc.starting, hp] using hs.starting
    runSubmit := by simp }
  case stored job hp =>
    -- `rocket_job_run` holds the lock, so the IRQ thread is outside its section
    have hirq := (hl.irq_outside (by simp [hp, RunPc.holds])).1
    have hst := hs.running (by simp [hp])
    obtain ⟨hcur, hidx, hpos, -⟩ := hs.starting job (by simp [hp, RunPc.starting])
    exact { hs with
      runIdle := by simp [hst]
      forgot := fun hg => by simp [hs.stops, ResetPc.stops_of_forgot hg] at hst
      current := fun j hj => .inl (hcur.trans hj)
      takenFlight := fun j hj => hs.takenCurrent j (hcur.trans hj)
      starting := by simp [RunPc.starting]
      runSubmit := by
        rintro j p he
        cases he
        exact ⟨rfl, fun _ => ⟨hidx, hpos⟩, fun k hk => by cases hk⟩
      irqSubmit := by simp [IrqPc.ne_submit hirq]
      closing := by simp [IrqPc.closing_ne hirq] }
  case runSubmit job p p' d hp hm => exact hs.runSubmits hl hp hm

theorem irqSubmits {job : ℕ} {p p' : SubmitPc} {d : Core} (hl : Locks c) (hs : Sched jobs c)
    (hp : c.irq = .submit job p) (hm : SubmitMove job c p p' d) :
    Sched jobs { d with irq := .submit job p' } := by
  have hrun := hl.run_outside (.inl (by simp [hp, IrqPc.holds]))
  have hf := (hs.irqSubmit job p hp).1
  cases hm
  case take => exact { hs with
    current := by simpa [hp] using hs.current
    fresh := hs.fresh_take hf _
    starting := fun j hj => by simpa [hs.ne_of_starting hj hf] using hs.starting j hj
    runSubmit := by simp [RunPc.ne_submit hrun]
    irqSubmit := by simpa [SubmitPc.task, hp] using hs.irqSubmit
    closing := by simp [IrqPc.closing] }
  case mask | clear => exact { hs with
    current := by simpa [hp] using hs.current
    irqSubmit := by simpa [SubmitPc.task, hp] using hs.irqSubmit
    closing := by simp [IrqPc.closing] }
  case skip | enable => exact { hs with
    current := by simpa [hp] using hs.current
    irqSubmit := by simp [SubmitPc.task, hf]
    closing := by simp [IrqPc.closing] }

theorem irq (hl : Locks c) (hs : Sched jobs c) (h : Move jobs c .irq c') :
    Sched jobs c' := by
  cases h
  case disabled hp | cleared hp | irqLocked hp _ | nothingInFlight hp _ | irqSubmitted hp |
      irqUnlocked hp =>
    exact { hs with
      current := by simpa [hp] using hs.current
      irqSubmit := by simp
      closing := by simp [IrqPc.closing] }
  case nextTask job hp hf hlt => exact { hs with
    current := by simpa [hp] using hs.current
    irqSubmit := by
      rintro j p he
      cases he
      exact ⟨hf, fun _ => hlt, fun k hk => by cases hk⟩
    closing := by simp [IrqPc.closing] }
  case lastTask job hp hf hlast => exact { hs with
    current := by simpa [hp] using hs.current
    irqSubmit := by simp
    closing := by
      intro j he
      obtain rfl := Option.some.inj he
      exact ⟨hf, hlast⟩ }
  case irqSubmit job p p' d hp hm => exact hs.irqSubmits hl hp hm
  case irqDetached job hp => exact { hs with
    current := by simpa [hp] using hs.current
    irqSubmit := by simp
    closing := by simpa [IrqPc.closing, hp] using hs.closing }
  case signalled job hp =>
    have hf := (hs.closing job (by simp [hp, IrqPc.closing])).1
    exact { hs with
      current := fun j hj => .inr (congrArg _ (Option.some.inj (hf.symm.trans hj)))
      takenCurrent := by
        intro j hj
        split_ifs at hj
        exact hs.takenCurrent j hj
      starting := by
        intro j hj
        have hstart := hs.starting j hj
        simpa [hstart.1, hs.ne_of_starting hj hf] using hstart.2
      irqSubmit := by simp
      closing := by simpa [IrqPc.closing, hp] using hs.closing }
  case finished job hp =>
    have hrun := hl.run_outside (.inl (by simp [hp, IrqPc.holds]))
    exact { hs with
      forgot := by simp
      current := by simp
      takenFlight := by simp
      starting := hs.starting_dropped
      runSubmit := by simp [RunPc.ne_submit hrun]
      irqSubmit := by simp
      closing := by simp [IrqPc.closing] }

theorem reset (hl : Locks c) (hs : Sched jobs c) (h : Move jobs c .reset c') :
    Sched jobs c' := by
  cases h
  case schedStopped hp hidle => exact { hs with
    stops := by simp [ResetPc.stops]
    runIdle := fun _ => hidle
    forgot := by simp [ResetPc.forgot] }
  case resetLocked hp _ | balanced hp | resetDetached hp => exact { hs with
    stops := by simpa [ResetPc.stops, hp] using hs.stops
    forgot := by simp [ResetPc.forgot] }
  case forgotten hp =>
    have hrun := hl.run_outside (.inr (by simp [hp, ResetPc.holds]))
    have hirq := hl.reset_inside (by simp [hp, ResetPc.holds])
    exact { hs with
      stops := by simpa [ResetPc.stops, hp] using hs.stops
      forgot := by simp
      current := by simp
      takenFlight := by simp
      starting := hs.starting_dropped
      runSubmit := by simp [RunPc.ne_submit hrun]
      irqSubmit := by simp [IrqPc.ne_submit hirq]
      closing := by simp [IrqPc.closing_ne hirq] }
  case resetUnlocked hp | coreReset hp | resetDone hp => exact { hs with
    stops := by simpa [ResetPc.stops, hp] using hs.stops
    forgot := by simpa [ResetPc.forgot, hp] using hs.forgot }
  case schedStarted hp =>
    have hidle := hs.runIdle (by simp [hs.stops, hp, ResetPc.stops])
    exact { hs with
      stops := by simp [ResetPc.stops]
      runIdle := by simp
      forgot := by simp [ResetPc.forgot]
      current := by simp [hs.forgot (by simp [hp, ResetPc.forgot])]
      takenCurrent := by simp
      starting := by simp [hidle, RunPc.starting] }

theorem move {a : Act} (hl : Locks c) (hs : Sched jobs c) (h : Move jobs c a c') :
    Sched jobs c' := by
  cases a with
  | schedule job fail => exact hs.schedule h
  | run fail => exact hs.run hl h
  | irq => exact hs.irq hl h
  | reset => exact hs.reset hl h
  | irqThread spurious =>
    cases h with
    | entered hp _ => exact { hs with
      current := by simpa [hp] using hs.current
      irqSubmit := by simp
      closing := by simp [IrqPc.closing] }
  | timeout job =>
    cases h with
    | timedOut hp _ => exact { hs with
      stops := by simpa [ResetPc.stops, hp] using hs.stops
      forgot := by simp [ResetPc.forgot] }
  | hardIrq =>
    cases h
    exact { hs with }
  | complete =>
    cases h
    exact { hs with }

end Sched

/-- What every reachable core satisfies. -/
structure Wf (jobs : Jobs) (c : Core) : Prop where
  locks : Locks c
  sched : Sched jobs c

theorem Wf.step {a : Act} (hw : Wf jobs c) (h : Step jobs c a c') : Wf jobs c' :=
  ⟨hw.locks.move h.move, hw.sched.move hw.locks h.move⟩

end RocketNpu.Job
