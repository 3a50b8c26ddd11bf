import Mathlib.Data.Int.Notation
import Mathlib.Logic.Function.Basic
import RocketNpu.Lib.Runs

namespace RocketNpu.Job
open Runs

/-- The jobs a core's scheduler may be given, by number. -/
structure Jobs where
  /-- The IOMMU domain of the file that submitted the job. -/
  domain : ℕ → ℕ
  taskCount : ℕ → ℕ

/-- What the hardware and the fences saw, for the record. -/
inductive Event where
  | started (job task : ℕ)
  | completed (job task : ℕ)
  | signalled (job : ℕ)
deriving DecidableEq, Repr

/-- Where `rocket_job_hw_submit` stands: before its test of `reset.pending`, or before the
write of the register named, for the task it took. -/
inductive SubmitPc where
  | check
  | intMask (task : ℕ)
  | intClear (task : ℕ)
  | operationEnable (task : ℕ)
  | fin
deriving DecidableEq, Repr

/-- Where `rocket_job_run` stands; the last two hold `job_lock`. -/
inductive RunPc where
  | idle
  | fenced (job : ℕ)
  | powered (job : ℕ)
  | attached (job : ℕ)
  | locked (job : ℕ)
  | submit (job : ℕ) (p : SubmitPc)
deriving DecidableEq, Repr

/-- Where the IRQ thread stands; from `locked` on it holds `job_lock`. -/
inductive IrqPc where
  | idle
  | entered
  | disabled
  | cleared
  | locked
  | submit (job : ℕ) (p : SubmitPc)
  | finishing (job : ℕ)
  | detached (job : ℕ)
  | signalled (job : ℕ)
  | leaving
deriving DecidableEq, Repr

/-- Where `rocket_job_timedout` stands; from `locked` to `forgotten` it holds `job_lock`. -/
inductive ResetPc where
  | idle
  | timedOut
  | stopped
  | locked
  | balanced
  | detached
  | forgotten
  | unlocked
  | coreReset
  | ready
deriving DecidableEq, Repr

inductive Thread where
  | run | irq | reset
deriving DecidableEq, Repr

/-- One core with its scheduler. -/
structure Core where
  inFlightJob : Option ℕ
  resetPending : Bool
  jobLock : Option Thread
  /-- The domain `iommu_group` is attached to; `none` is the default one. -/
  group : Option ℕ
  /-- References the driver holds on `iommu_group`. -/
  groupRefs : ℤ
  /-- Runtime-PM usage the job path holds on the core. -/
  usage : ℤ
  /-- `rocket_df_busy[i].start` is set. -/
  busy : Bool
  /-- The task the hardware works on. -/
  exec : Option (ℕ × ℕ)
  /-- A DPU bit of INTERRUPT_RAW_STATUS. -/
  rawStatus : Bool
  /-- INTERRUPT_MASK lets the DPU bits through. -/
  intMask : Bool
  /-- The IRQ thread has been woken and has not started on it. -/
  woken : Bool
  run : RunPc
  irq : IrqPc
  reset : ResetPc
  /-- The job `drm_sched` has handed out and not seen completed. -/
  current : Option ℕ
  /-- Between `drm_sched_stop` and `drm_sched_start`. -/
  stopped : Bool
  /-- The jobs `drm_sched` has taken off its queue. -/
  taken : ℕ → Bool
  nextTaskIdx : ℕ → ℕ
  /-- Latest first. -/
  log : List Event

/-- A core after `rocket_core_init`, in a slot whose memory is as it was allocated: nothing writes
`in_flight_job` between then and the first job, and it is NULL. -/
def Core.init : Core where
  inFlightJob := none
  resetPending := false
  jobLock := none
  group := none
  groupRefs := 1
  usage := 0
  busy := false
  exec := none
  rawStatus := false
  intMask := false
  woken := false
  run := .idle
  irq := .idle
  reset := .idle
  current := none
  stopped := false
  taken _ := false
  nextTaskIdx _ := 0
  log := []

/-- One step of `rocket_job_hw_submit`. The writes that only describe the task go with the
step that takes it; each write the interrupt logic or the engine reacts to is one of its
own. -/
def rocketJobHwSubmit (job : ℕ) : SubmitPc → Core → SubmitPc × Core
  | .check, c =>
    if c.resetPending then (.fin, c)
    else (.intMask (c.nextTaskIdx job), { c with
      nextTaskIdx := Function.update c.nextTaskIdx job (c.nextTaskIdx job + 1) })
  | .intMask k, c => (.intClear k, { c with intMask := true })
  | .intClear k, c => (.operationEnable k, { c with rawStatus := false })
  | .operationEnable k, c =>
    (.fin, { c with exec := some (job, k), log := .started job k :: c.log })
  | .fin, c => (.fin, c)

variable (jobs : Jobs)

/-- `drm_sched` takes a job off its queue and calls `rocket_job_run`, up to the new
`done_fence`. Without one (the job was cancelled, has nothing to do, or no fence could be
made: `fail`) `drm_sched` is done with the job at once. -/
def schedule (job : ℕ) (fail : Bool) (c : Core) : Option Core :=
  if c.run = .idle ∧ c.stopped = false ∧ c.current = none ∧ c.taken job = false then
    if fail ∨ c.nextTaskIdx job = jobs.taskCount job then
      some { c with taken := Function.update c.taken job true }
    else some { c with
      taken := Function.update c.taken job true
      current := some job
      run := .fenced job }
  else none

/-- One step of `rocket_job_run`; `fail` is the outcome of `pm_runtime_get_sync` and of
`iommu_attach_group`, which refuses a group that is attached already. -/
def rocketJobRun (fail : Bool) (c : Core) : Option Core :=
  match c.run with
  | .idle => none
  | .fenced job =>
    some { c with usage := c.usage + 1, run := if fail then .idle else .powered job }
  | .powered job =>
    -- the usage count taken above is not given back
    if fail ∨ c.group.isSome then some { c with run := .idle }
    else some { c with group := some (jobs.domain job), run := .attached job }
  | .attached job =>
    if c.jobLock = none then some { c with jobLock := some .run, run := .locked job }
    else none
  | .locked job =>
    some { c with inFlightJob := some job, busy := true, run := .submit job .check }
  | .submit _ .fin => some { c with jobLock := none, run := .idle }
  | .submit job p =>
    match rocketJobHwSubmit job p c with
    | (p, c) => some { c with run := .submit job p }

/-- The IRQ thread starts on a wake-up. With `spurious` it runs without one. -/
def rocketJobIrqHandlerThread (spurious : Bool) (c : Core) : Option Core :=
  if c.irq = .idle ∧ (c.woken ∨ spurious) then some { c with woken := false, irq := .entered }
  else none

/-- One step of `rocket_job_handle_irq`. -/
def rocketJobHandleIrq (c : Core) : Option Core :=
  match c.irq with
  | .idle => none
  | .entered => some { c with exec := none, irq := .disabled }
  | .disabled => some { c with rawStatus := false, irq := .cleared }
  | .cleared =>
    if c.jobLock = none then some { c with jobLock := some .irq, irq := .locked } else none
  | .locked =>
    match c.inFlightJob with
    | none => some { c with irq := .leaving }
    | some job =>
      some { c with
        irq := if c.nextTaskIdx job < jobs.taskCount job then .submit job .check
          else .finishing job }
  | .submit _ .fin => some { c with irq := .leaving }
  | .submit job p =>
    match rocketJobHwSubmit job p c with
    | (p, c) => some { c with irq := .submit job p }
  | .finishing job =>
    some { c with groupRefs := c.groupRefs + 1, group := none, irq := .detached job }
  | .detached job =>
    some { c with
      -- the fence tells `drm_sched` that its job is over
      current := if c.current = some job then none else c.current
      log := .signalled job :: c.log
      irq := .signalled job }
  | .signalled _ =>
    some { c with usage := c.usage - 1, inFlightJob := none, busy := false, irq := .leaving }
  | .leaving => some { c with jobLock := none, irq := .idle }

/-- `drm_sched` calls `rocket_job_timedout` for a job it has handed out. The fence of the job
may be signalled by then, as long as the job was not freed. -/
def timeout (job : ℕ) (c : Core) : Option Core :=
  if c.reset = .idle ∧ c.taken job = true then
    some { c with resetPending := true, reset := .timedOut }
  else none

/-- One step of `rocket_reset`. `drm_sched_stop` waits for a running `rocket_job_run`, and
`drm_sched_start` cancels the jobs it finds. -/
def rocketReset (c : Core) : Option Core :=
  match c.reset with
  | .idle => none
  | .timedOut =>
    if c.run = .idle then some { c with stopped := true, reset := .stopped } else none
  | .stopped =>
    if c.jobLock = none then some { c with jobLock := some .reset, reset := .locked } else none
  | .locked =>
    some { c with
      usage := if c.inFlightJob.isSome then c.usage - 1 else c.usage
      reset := .balanced }
  | .balanced => some { c with group := none, reset := .detached }
  | .detached => some { c with inFlightJob := none, busy := false, reset := .forgotten }
  | .forgotten => some { c with jobLock := none, reset := .unlocked }
  | .unlocked =>
    some { c with exec := none, rawStatus := false, intMask := false, reset := .coreReset }
  | .coreReset => some { c with resetPending := false, reset := .ready }
  | .ready => some { c with stopped := false, current := none, reset := .idle }

/-- `rocket_job_irq_handler`, on the core's own interrupt: the source is masked and the
thread woken. -/
def rocketJobIrqHandler (c : Core) : Option Core :=
  if c.rawStatus ∧ c.intMask then some { c with intMask := false, woken := true } else none

/-- The hardware completes the task it works on. -/
def complete (c : Core) : Option Core :=
  match c.exec with
  | none => none
  | some (job, k) =>
    some { c with exec := none, rawStatus := true, log := .completed job k :: c.log }

inductive Act where
  | schedule (job : ℕ) (fail : Bool)
  | run (fail : Bool)
  | irqThread (spurious : Bool)
  | irq
  | timeout (job : ℕ)
  | reset
  | hardIrq
  | complete
deriving DecidableEq, Repr

def Core.step (c : Core) : Act → Option Core
  | .schedule job fail => schedule jobs job fail c
  | .run fail => rocketJobRun jobs fail c
  | .irqThread spurious => rocketJobIrqHandlerThread spurious c
  | .irq => rocketJobHandleIrq jobs c
  | .timeout job => timeout job c
  | .reset => rocketReset c
  | .hardIrq => rocketJobIrqHandler c
  | .complete => complete c

def Step (c : Core) (a : Act) (c' : Core) : Prop := c.step jobs a = some c'

end RocketNpu.Job
