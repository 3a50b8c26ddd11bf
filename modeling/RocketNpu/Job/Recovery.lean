import Mathlib.Data.Nat.Notation
import Mathlib.Logic.Relation
import RocketNpu.Job.Freeing
import RocketNpu.Job.Usage

namespace RocketNpu.Job
open Runs Relation

variable {jobs : Jobs} {c c' : Core}

/-- The core's threads take these steps with no help from the hardware, the scheduler's queue
or its timer. -/
def Act.own : Act → Bool
  | .run _ | .irqThread false | .irq | .reset => true
  | _ => false

/-- Each thread waits for something from outside. -/
def Settled (jobs : Jobs) (c : Core) : Prop := ∀ a : Act, a.own = true → c.step jobs a = none

def SubmitPc.left : SubmitPc → ℕ
  | .check => 5
  | .intMask _ => 4
  | .intClear _ => 3
  | .operationEnable _ => 2
  | .fin => 1

def RunPc.left : RunPc → ℕ
  | .idle => 0
  | .submit _ p => p.left
  | .locked _ => 6
  | .attached _ => 7
  | .powered _ => 8
  | .fenced _ => 9

def IrqPc.left : IrqPc → ℕ
  | .idle => 0
  | .leaving => 1
  | .submit _ p => p.left + 1
  | .signalled _ => 2
  | .detached _ => 3
  | .finishing _ => 4
  | .locked => 7
  | .cleared => 8
  | .disabled => 9
  | .entered => 10

def ResetPc.left : ResetPc → ℕ
  | .idle => 0
  | .ready => 1
  | .coreReset => 2
  | .unlocked => 3
  | .forgotten => 4
  | .detached => 5
  | .balanced => 6
  | .locked => 7
  | .stopped => 8
  | .timedOut => 9

/-- How many steps the core's threads can still take on their own. -/
def Core.left (c : Core) : ℕ :=
  c.run.left + c.irq.left + (if c.woken then 11 else 0) + c.reset.left

theorem SubmitMove.left {job : ℕ} {p p' : SubmitPc} {d : Core} (h : SubmitMove job c p p' d) :
    p'.left < p.left ∧ d.woken = c.woken := by
  cases h <;> simp [SubmitPc.left]

/-- Nothing is under way on the core. -/
structure AtRest (c : Core) : Prop where
  run : c.run = .idle
  irq : c.irq = .idle
  reset : c.reset = .idle
  woken : c.woken = false
  jobLock : c.jobLock = none

theorem rocketJobRun_isSome (hc : c.run ≠ .idle) (hl : c.run.holds = true ∨ c.jobLock = none) :
    (rocketJobRun jobs false c).isSome = true := by
  unfold rocketJobRun
  cases hr : c.run with
  | idle => exact absurd hr hc
  | powered job =>
    simp only
    split_ifs <;> rfl
  | attached job =>
    have hfree : c.jobLock = none := hl.resolve_left (by simp [hr, RunPc.holds])
    simp [hfree]
  | submit job p => cases p <;> rfl
  | _ => rfl

theorem rocketJobHandleIrq_isSome (hc : c.irq ≠ .idle)
    (hl : c.irq.holds = true ∨ c.jobLock = none) :
    (rocketJobHandleIrq jobs c).isSome = true := by
  unfold rocketJobHandleIrq
  cases hi : c.irq with
  | idle => exact absurd hi hc
  | cleared =>
    have hfree : c.jobLock = none := hl.resolve_left (by simp [hi, IrqPc.holds])
    simp [hfree]
  | locked => cases c.inFlightJob <;> rfl
  | submit job p => cases p <;> rfl
  | _ => rfl

theorem Settled.not_isSome (hs : Settled jobs c) {a : Act} (ha : a.own = true) :
    ¬ (c.step jobs a).isSome = true := by
  simp [hs a ha]

/-- Whoever holds `job_lock` can go on, so nobody does when all of them wait. -/
theorem Settled.jobLock (hs : Settled jobs c) (hl : Locks c) : c.jobLock = none := by
  cases hlock : c.jobLock with
  | none => rfl
  | some thread =>
    exfalso
    cases thread with
    | run =>
      have hholds := hl.run.mp hlock
      have hbusy : c.run ≠ .idle := fun h => by simp [h, RunPc.holds] at hholds
      exact hs.not_isSome (a := .run false) rfl (rocketJobRun_isSome hbusy (.inl hholds))
    | irq =>
      have hholds := hl.irq.mp hlock
      have hbusy : c.irq ≠ .idle := fun h => by simp [h, IrqPc.holds] at hholds
      exact hs.not_isSome (a := .irq) rfl (rocketJobHandleIrq_isSome hbusy (.inl hholds))
    | reset =>
      have hholds := hl.reset.mp hlock
      -- the section of `rocket_reset` waits for nothing
      have hstep : (rocketReset c).isSome = true := by
        unfold rocketReset
        cases hr : c.reset <;> simp [hr, ResetPc.holds] at hholds ⊢
      exact hs.not_isSome (a := .reset) rfl hstep

theorem AtRest.settled (h : AtRest c) : Settled jobs c := by
  intro a ha
  cases a with
  | run fail => simp [Core.step, rocketJobRun, h.run]
  | irqThread spurious =>
    cases spurious with
    | false => simp [Core.step, rocketJobIrqHandlerThread, h.woken]
    | true => cases ha
  | irq => simp [Core.step, rocketJobHandleIrq, h.irq]
  | reset => simp [Core.step, rocketReset, h.reset]
  | schedule | timeout | hardIrq | complete => cases ha

/-- From the time-out to the write of 0 to `reset.pending`. -/
def ResetPc.pends : ResetPc → Bool
  | .idle | .ready => false
  | _ => true

/-- A group stays attached only for a job that is being started or is in flight. -/
structure Tied (c : Core) : Prop where
  pending : c.resetPending = c.reset.pends
  group : c.group.isSome = true → c.run.attaches = true ∨
    c.inFlightJob.isSome = true ∧ c.irq.detaches = false ∧ c.reset ≠ .detached

theorem Tied.init : Tied Core.init := by
  constructor <;> simp [Core.init, ResetPc.pends]

theorem SubmitMove.tied {job : ℕ} {p p' : SubmitPc} {d : Core} (h : SubmitMove job c p p' d) :
    d.resetPending = c.resetPending ∧ d.group = c.group ∧ d.inFlightJob = c.inFlightJob := by
  cases h <;> exact ⟨rfl, rfl, rfl⟩

theorem Tied.move {a : Act} (hw : Wf jobs c) (ht : Tied c) (h : Move jobs c a c') : Tied c' := by
  obtain ⟨hpending, hgroup⟩ := ht
  cases h
  case runSubmit hp hm | irqSubmit hp hm =>
    obtain ⟨-, hrun, hirq, hreset⟩ := hm.jobLock
    obtain ⟨hpend, hg, hflight⟩ := hm.tied
    rw [hp] at hgroup
    constructor
    · simp only [hpend, hpending, hreset]
    · simpa [hg, hflight, hrun, hirq, hreset, RunPc.attaches, IrqPc.detaches] using hgroup
  case stored job _ hp =>
    -- the lock keeps the IRQ thread and the reset out of their sections
    have hholds : c.run.holds = true := by simp [hp, RunPc.holds]
    obtain ⟨hirq, hreset⟩ := hw.locks.irq_outside hholds
    exact ⟨hpending, fun _ =>
      .inr ⟨rfl, IrqPc.detaches_of_outside hirq, ResetPc.ne_detached hreset⟩⟩
  all_goals
    constructor <;> simp_all [ResetPc.pends, RunPc.attaches, IrqPc.detaches]

/-- Fit for the next job. -/
structure Ready (c : Core) : Prop extends AtRest c where
  stopped : c.stopped = false
  resetPending : c.resetPending = false
  current : c.current = none
  inFlightJob : c.inFlightJob = none
  group : c.group = none

theorem AtRest.ready (h : AtRest c) (hw : Wf jobs c) (ht : Tied c) (hc : c.current = none) :
    Ready c := by
  have hflight : c.inFlightJob = none := by
    cases hj : c.inFlightJob with
    | none => rfl
    | some job =>
      exfalso
      rcases hw.sched.current job hj with hcur | hirq
      · simp [hc] at hcur
      · simp [h.irq] at hirq
  refine ⟨h, ?_, ?_, hc, hflight, ?_⟩
  · simp [hw.sched.stops, h.reset, ResetPc.stops]
  · simp [ht.pending, h.reset, ResetPc.pends]
  · by_contra hg
    have hgroup := ht.group (Option.isSome_iff_ne_none.mpr hg)
    simp [h.run, hflight, RunPc.attaches] at hgroup

/-- The next job is started and its first task given to the hardware. -/
theorem Ready.starts (hr : Ready c) (hw : Wf jobs c) {job : ℕ} (hnew : c.taken job = false)
    (hpos : 0 < jobs.taskCount job) :
    ∃ d, Reachable (· = c) (Step jobs) d ∧ d.inFlightJob = some job ∧
      d.exec = some (job, 0) := by
  have hidx : c.nextTaskIdx job = 0 := hw.sched.fresh job hnew
  have htasks : 0 ≠ jobs.taskCount job := Nat.ne_of_lt hpos
  obtain ⟨d, hd, hflight, hexec⟩ : ∃ d,
      (.schedule job false :: List.replicate 8 (.run false)).foldlM (Core.step jobs) c = some d ∧
        d.inFlightJob = some job ∧ d.exec = some (job, 0) := by
    simp [List.replicate, Core.step, schedule, rocketJobRun, rocketJobHwSubmit, hr.run,
      hr.stopped, hr.current, hr.group, hr.jobLock, hr.resetPending, hnew, hidx, htasks]
  have hstart : Reachable (· = c) (Step jobs) c := .start rfl
  exact ⟨d, hstart.foldlM (fun _ _ _ h => h) hd, hflight, hexec⟩

end RocketNpu.Job
