import RocketNpu.Job.Isolation

namespace RocketNpu.Job
open Runs

variable {jobs : Jobs} {c c' : Core}

/-- `rocket_job_run` has raised the usage count and not stored `in_flight_job` yet. -/
def RunPc.powers : RunPc → Bool
  | .powered _ | .attached _ | .locked _ => true
  | _ => false

/-- `rocket_reset` has lowered the usage count and not cleared `in_flight_job` yet. -/
def ResetPc.settles : ResetPc → Bool
  | .balanced | .detached => true
  | _ => false

/-- The usage counts the code at its present point is to have taken and not returned: one
for a job being started, one for the job in flight. -/
def Core.owed (c : Core) : ℤ :=
  (if c.run.powers then 1 else 0) + if c.inFlightJob.isSome ∧ c.reset.settles = false then 1 else 0

/-- One usage count for the job in flight, and none without one, whenever no call stands
between its change of the count and its change of `in_flight_job`. -/
def UsageBalanced (c : Core) : Prop :=
  c.run.powers = false → c.reset.settles = false →
    c.usage = if c.inFlightJob.isSome then 1 else 0

/-- `pm_runtime_get_sync` and `iommu_attach_group` succeed in `rocket_job_run`. -/
def startSucceeds (c : Core) : Act → Bool
  | .run fail =>
    match c.run with
    | .fenced _ | .powered _ => !fail
    | _ => true
  | _ => true

/-- A call that gives up after it has raised the usage count. -/
def startFails (c : Core) : Act → Bool
  | .run fail =>
    match c.run with
    | .fenced _ => fail
    | .powered _ => fail || c.group.isSome
    | _ => false
  | _ => false

theorem ResetPc.settles_of_outside {p : ResetPc} (h : p.holds = false) : p.settles = false := by
  cases p <;> simp [ResetPc.holds, ResetPc.settles] at h ⊢

/-- A submission leaves the count, the group and `in_flight_job` alone. -/
theorem SubmitMove.usage {job : ℕ} {p p' : SubmitPc} {d : Core} (h : SubmitMove job c p p' d) :
    d.usage = c.usage ∧ d.group = c.group ∧ d.inFlightJob = c.inFlightJob := by
  cases h <;> exact ⟨rfl, rfl, rfl⟩

/-- When `rocket_job_run` stores its job, the one before it is out of flight. -/
theorem Wf.flight_free (hw : Wf jobs c) {job : ℕ} (hrun : c.run = .locked job) :
    c.inFlightJob = none := by
  by_contra hf
  obtain ⟨j, hj⟩ := Option.ne_none_iff_exists'.mp hf
  have hsig := hw.sched.flight_of_starting job j (by simp [hrun, RunPc.starting]) hj
  have hirq := (hw.locks.irq_outside (by simp [hrun, RunPc.holds])).1
  simp [hsig, IrqPc.holds] at hirq

theorem Wf.reset_outside (hw : Wf jobs c) (h : c.irq.holds = true) : c.reset.holds = false := by
  by_contra hr
  simpa [h] using hw.locks.reset_inside (by simpa using hr)

/-- Every step changes the usage count by as much as what is owed, but for a failing start,
which leaves one count behind. -/
theorem Move.owed {a : Act} (hw : Wf jobs c) (h : Move jobs c a c') :
    c'.usage - c'.owed = c.usage - c.owed + if startFails c a then 1 else 0 := by
  cases h
  case dropped | disabled | cleared | irqLocked | nothingInFlight | nextTask | lastTask |
      irqSubmitted | irqDetached | signalled | irqUnlocked | entered | woken | completed =>
    simp [Core.owed, startFails]
  case scheduled hrun _ _ _ _ => simp [Core.owed, startFails, hrun, RunPc.powers]
  case resumeFailed hrun =>
    simp [Core.owed, startFails, hrun, RunPc.powers]
    omega
  case resumed hrun =>
    simp [Core.owed, startFails, hrun, RunPc.powers]
    omega
  case attachFailed hrun hf =>
    simp [Core.owed, startFails, hrun, RunPc.powers, hf]
    omega
  case attached hrun hg => simp [Core.owed, startFails, hrun, RunPc.powers, hg]
  case runLocked hrun _ | runUnlocked hrun => simp [Core.owed, startFails, hrun, RunPc.powers]
  case stored job hrun =>
    have hreset := (hw.locks.irq_outside (by simp [hrun, RunPc.holds])).2
    simp [Core.owed, startFails, hrun, RunPc.powers, hw.flight_free hrun,
      ResetPc.settles_of_outside hreset]
  case runSubmit hrun hm =>
    obtain ⟨h1, -, h3⟩ := hm.usage
    obtain ⟨-, -, -, h5⟩ := hm.jobLock
    simp [Core.owed, startFails, hrun, RunPc.powers, h1, h3, h5]
  case irqSubmit hirq hm =>
    obtain ⟨h1, -, h3⟩ := hm.usage
    obtain ⟨-, h4, -, h5⟩ := hm.jobLock
    simp [Core.owed, startFails, h1, h3, h4, h5]
  case finished job hirq =>
    have hf := (hw.sched.closing job (by simp [hirq, IrqPc.closing])).1
    have hreset := hw.reset_outside (by simp [hirq, IrqPc.holds])
    simp [Core.owed, startFails, hf, ResetPc.settles_of_outside hreset]
    omega
  case timedOut hr _ | schedStopped hr _ | resetLocked hr _ | resetDetached hr |
      resetUnlocked hr | coreReset hr | resetDone hr | schedStarted hr =>
    simp [Core.owed, startFails, hr, ResetPc.settles]
  case balanced hr =>
    simp only [Core.owed, startFails, hr, ResetPc.settles]
    split_ifs <;> simp_all
    omega
  case forgotten hr => simp [Core.owed, startFails, hr, ResetPc.settles]

def RunPc.attaches : RunPc → Bool
  | .attached _ | .locked _ => true
  | _ => false

def IrqPc.detaches : IrqPc → Bool
  | .detached _ | .signalled _ => true
  | _ => false

theorem IrqPc.detaches_of_outside {p : IrqPc} (h : p.holds = false) : p.detaches = false := by
  cases p <;> simp [IrqPc.holds, IrqPc.detaches] at h ⊢

/-- Whom the group is attached for: a job being started, or the one in flight. -/
structure Attached (c : Core) : Prop where
  group : c.group.isSome = true →
    c.run.attaches = true ∨ c.inFlightJob.isSome = true ∧ c.irq.detaches = false
  detached : c.reset = .detached → c.group = none

theorem Attached.init : Attached Core.init := by
  constructor <;> simp [Core.init]

/-- The group is free when `rocket_job_run` comes to attach it. -/
theorem Attached.group_free (hw : Wf jobs c) (hg : Attached c) {job : ℕ}
    (hrun : c.run = .powered job) : c.group = none := by
  by_contra hne
  rcases hg.group (Option.isSome_iff_ne_none.mpr hne) with h | ⟨hf, hirq⟩
  · simp [hrun, RunPc.attaches] at h
  · obtain ⟨j, hj⟩ := Option.isSome_iff_exists.mp hf
    -- a job still in flight has been signalled, and its group detached before
    have hsig := hw.sched.flight_of_starting job j (by simp [hrun, RunPc.starting]) hj
    simp [hsig, IrqPc.detaches] at hirq

theorem Attached.run {fail : Bool} (hw : Wf jobs c) (hg : Attached c)
    (hc : startFails c (.run fail) = false) (h : Move jobs c (.run fail) c') : Attached c' := by
  cases h
  case resumeFailed hrun => simp [startFails, hrun] at hc
  case attachFailed hrun hf => simp_all [startFails]
  case resumed hrun => exact { hg with
    group := by simpa [hrun, RunPc.attaches] using hg.group }
  case attached hrun _ => exact { hg with
    group := fun _ => .inl rfl
    detached := fun (hd : c.reset = .detached) => by
      have hst := hw.sched.runIdle (by simp [hw.sched.stops, hd, ResetPc.stops])
      simp [hrun] at hst }
  case runLocked hrun _ => exact { hg with group := fun _ => .inl rfl }
  case stored job hrun =>
    have hirq := (hw.locks.irq_outside (by simp [hrun, RunPc.holds])).1
    exact { hg with group := fun _ => .inr ⟨rfl, IrqPc.detaches_of_outside hirq⟩ }
  case runSubmit job p p' d hrun hm =>
    obtain ⟨-, h2, h3⟩ := hm.usage
    obtain ⟨-, -, h4, h5⟩ := hm.jobLock
    constructor
    · simpa [h2, h3, h4, hrun, RunPc.attaches] using hg.group
    · simpa [h2, h5] using hg.detached
  case runUnlocked hrun => exact { hg with
    group := by simpa [hrun, RunPc.attaches] using hg.group }

theorem Attached.irq (hg : Attached c) (h : Move jobs c .irq c') : Attached c' := by
  cases h
  case disabled hirq | cleared hirq | irqLocked hirq _ | nothingInFlight hirq _ |
      nextTask hirq _ _ | lastTask hirq _ _ | irqSubmitted hirq | signalled hirq |
      irqUnlocked hirq =>
    exact { hg with group := by simpa [hirq, IrqPc.detaches] using hg.group }
  case irqSubmit job p p' d hirq hm =>
    obtain ⟨-, h2, h3⟩ := hm.usage
    obtain ⟨-, h4, -, h5⟩ := hm.jobLock
    constructor
    · simpa [h2, h3, h4, hirq, IrqPc.detaches] using hg.group
    · simpa [h2, h5] using hg.detached
  case irqDetached => exact { hg with
    group := by simp
    detached := by simp }
  case finished job hirq => exact { hg with
    group := fun hs => .inl ((hg.group hs).resolve_right (by simp [hirq, IrqPc.detaches])) }

theorem Attached.reset (hg : Attached c) (h : Move jobs c .reset c') : Attached c' := by
  cases h
  case schedStopped | resetLocked | balanced | resetUnlocked | coreReset | resetDone |
      schedStarted =>
    exact { hg with detached := by simp }
  case resetDetached => exact { hg with
    group := by simp
    detached := by simp }
  case forgotten hr => exact { hg with
    group := by simp [hg.detached hr]
    detached := by simp }

theorem Attached.move {a : Act} (hw : Wf jobs c) (hg : Attached c)
    (hc : startFails c a = false) (h : Move jobs c a c') : Attached c' := by
  cases a with
  | schedule job fail =>
    cases h
    case dropped => exact { hg with }
    case scheduled hrun _ _ _ _ => exact { hg with
      group := by simpa [hrun, RunPc.attaches] using hg.group }
  | run fail => exact hg.run hw hc h
  | irq => exact hg.irq h
  | reset => exact hg.reset h
  | irqThread spurious =>
    cases h with
    | entered hirq _ => exact { hg with
      group := by simpa [hirq, IrqPc.detaches] using hg.group }
  | timeout job =>
    cases h with
    | timedOut hr _ => exact { hg with detached := by simp }
  | hardIrq =>
    cases h
    exact { hg with }
  | complete =>
    cases h
    exact { hg with }

/-- With the group free, a start fails only when one of its two calls does. -/
theorem Attached.startFails (hw : Wf jobs c) (hg : Attached c) {a : Act}
    (hc : startSucceeds c a = true) : Job.startFails c a = false := by
  cases a with
  | run fail =>
    unfold startSucceeds at hc
    unfold Job.startFails
    cases hrun : c.run with
    | powered job => simpa [hrun, hg.group_free hw hrun] using hc
    | _ => simp_all
  | _ => rfl

/-- In every run whose starts succeed, on a core bound with nothing in flight, the job path holds
one usage count for the job in flight and none without one. -/
theorem usageBalanced_of_startSucceeds
    (h : Reachable (· = Core.init) (restrict (Step jobs) fun c a => startSucceeds c a) c) :
    UsageBalanced c := by
  have hi : Wf jobs c ∧ Attached c ∧ c.usage = c.owed := by
    apply h.invariant (I := fun c => Wf jobs c ∧ Attached c ∧ c.usage = c.owed)
    · rintro c rfl
      exact ⟨⟨.init, .init⟩, .init, rfl⟩
    · rintro c a c' ⟨hw, hg, hu⟩ ⟨hs, hc⟩
      have hf := hg.startFails hw hc
      have ho := hs.move.owed hw
      simp only [hf, Bool.false_eq_true, if_false] at ho
      exact ⟨hw.step hs, hg.move hw hf hs.move, by omega⟩
  intro hrun hreset
  simpa [Core.owed, hrun, hreset] using hi.2.2

theorem usageBalanced_started :
    ∃ c, startJob.foldlM (fun c a => if startSucceeds c a then c.step oneTask a else none)
        Core.init = some c ∧ c.usage = 1 ∧ UsageBalanced c := by
  have h0 : Reachable (· = Core.init)
      (restrict (Step oneTask) fun c a => startSucceeds c a) Core.init := .start rfl
  have hend : (startJob.foldlM
      (fun c a => if startSucceeds c a then c.step oneTask a else none) Core.init).map
      Core.usage = some 1 := rfl
  obtain ⟨c, hc, husage⟩ := Option.map_eq_some_iff.mp hend
  refine ⟨c, hc, husage, usageBalanced_of_startSucceeds (h0.foldlM (fun c a c' h => ?_) hc)⟩
  split_ifs at h with hl
  exact ⟨h, hl⟩

/-- The core could not be resumed, and the count it was raised to stays. -/
def failedStart : List Act := [.schedule 0 false, .run true]

theorem not_usageBalanced :
    ∃ c, Reachable (· = Core.init) (Step oneTask) c ∧ c.run = .idle ∧ c.irq = .idle ∧
      c.reset = .idle ∧ c.inFlightJob = none ∧ c.usage = 1 ∧ ¬ UsageBalanced c := by
  have h0 : Reachable (· = Core.init) (Step oneTask) Core.init := .start rfl
  have hend : (failedStart.foldlM (Core.step oneTask) Core.init).map
      (fun c => (c.run, c.irq, c.reset, c.inFlightJob, c.usage)) =
      some (.idle, .idle, .idle, none, 1) := rfl
  obtain ⟨c, hc, heq⟩ := Option.map_eq_some_iff.mp hend
  simp only [Prod.mk.injEq] at heq
  obtain ⟨hrun, hirq, hreset, hf, husage⟩ := heq
  refine ⟨c, h0.foldlM (fun _ _ _ h => h) hc, hrun, hirq, hreset, hf, husage, fun h => ?_⟩
  have hu := h (by simp [hrun, RunPc.powers]) (by simp [hreset, ResetPc.settles])
  simp [hf, husage] at hu

end RocketNpu.Job
