import RocketNpu.Job.Threads

namespace RocketNpu.Job
open Runs

variable {jobs : Jobs} {c c' : Core}

/-- The core works on a task only while its group is attached to that job's domain. -/
def Isolated (jobs : Jobs) (c : Core) : Prop :=
  ∀ j k, c.exec = some (j, k) → c.group = some (jobs.domain j)

/-- `rocket_reset` detaches the group only after the core has stopped, and `rocket_job_run`
does not start a job of one task while the IRQ thread stands between its write of
OPERATION_ENABLE and its test of `in_flight_job`. -/
def stopsFirst (jobs : Jobs) (c : Core) : Act → Bool
  | .reset => c.reset != .balanced || c.exec == none
  | .run _ =>
    match c.run with
    | .submit job (.operationEnable _) =>
      jobs.taskCount job != 1 || (c.irq != .disabled && c.irq != .cleared)
    | _ => true
  | _ => true

/-- The IRQ thread has stopped the core and not looked at `in_flight_job` since. -/
def IrqPc.stopping : IrqPc → Bool
  | .disabled | .cleared | .locked => true
  | _ => false

theorem IrqPc.stopping_cases {r : IrqPc} (h : r.holds = false) (hs : r.stopping = true) :
    r = .disabled ∨ r = .cleared := by
  cases r <;> simp [IrqPc.holds, IrqPc.stopping] at h hs ⊢

/-- Before its write of OPERATION_ENABLE. -/
def SubmitPc.before : SubmitPc → Bool
  | .fin => false
  | _ => true

structure Attachment (jobs : Jobs) (c : Core) : Prop where
  flight : ∀ j, c.inFlightJob = some j → c.irq ≠ .detached j → c.irq ≠ .signalled j →
    c.reset ≠ .detached → c.group = some (jobs.domain j)
  attached : ∀ j, c.run = .attached j ∨ c.run = .locked j → c.group = some (jobs.domain j)
  exec : ∀ j k, c.exec = some (j, k) → c.inFlightJob = some j
  closing : ∀ j, c.irq.closing = some j → c.exec = none
  detached : c.reset = .detached → c.exec = none
  stopping : c.irq.stopping = true → ∀ j k, c.exec = some (j, k) →
    c.nextTaskIdx j < jobs.taskCount j
  runSubmit : ∀ j p, c.run = .submit j p → p.before = true → c.exec = none

theorem Attachment.init : Attachment jobs Core.init := by
  constructor <;> simp [Core.init]

theorem Attachment.isolated (h : Attachment jobs c) : Isolated jobs c := by
  intro j k hexec
  refine h.flight j (h.exec j k hexec) (fun hi => ?_) (fun hi => ?_) fun hr => ?_
  · simpa [hexec] using h.closing j (by rw [hi, IrqPc.closing])
  · simpa [hexec] using h.closing j (by rw [hi, IrqPc.closing])
  · simpa [hexec] using h.detached hr

theorem Attachment.schedule {job : ℕ} {fail : Bool} (ha : Attachment jobs c)
    (h : Move jobs c (.schedule job fail) c') : Attachment jobs c' := by
  cases h
  case dropped => exact { ha with }
  case scheduled => exact { ha with
    attached := by simp
    runSubmit := by simp }

theorem Attachment.runSubmits {job : ℕ} {p p' : SubmitPc} {d : Core} {fail : Bool}
    (hw : Wf jobs c) (ha : Attachment jobs c) (hc : stopsFirst jobs c (.run fail) = true)
    (hp : c.run = .submit job p) (hm : SubmitMove job c p p' d) :
    Attachment jobs { d with run := .submit job p' } := by
  obtain ⟨hirq, hreset⟩ := hw.locks.irq_outside (by simp [hp, RunPc.holds])
  have hex := ha.runSubmit job p hp
  have hsub := hw.sched.runSubmit job p hp
  cases hm
  case skip => exact { ha with
    attached := by simp
    runSubmit := by simp [SubmitPc.before] }
  case take => exact { ha with
    attached := by simp
    stopping := by simp [hex rfl]
    runSubmit := by simpa [SubmitPc.before, hp] using ha.runSubmit }
  case mask | clear => exact { ha with
    attached := by simp
    runSubmit := by simpa [SubmitPc.before, hp] using ha.runSubmit }
  case enable k =>
    have hone : jobs.taskCount job = 1 → c.irq ≠ .disabled ∧ c.irq ≠ .cleared := by
      intro h1
      simpa [stopsFirst, hp, h1] using hc
    exact { ha with
      attached := by simp
      exec := by simp [hsub]
      closing := by simp [IrqPc.closing_ne hirq]
      detached := fun hd => absurd hd (ResetPc.ne_detached hreset)
      stopping := by
        intro hst j k' he
        obtain ⟨rfl, rfl⟩ := Prod.mk.inj (Option.some.inj he)
        obtain ⟨-, hidx, hpos⟩ := hsub.2.2 k rfl
        have hne : jobs.taskCount job ≠ 1 := by
          intro h1
          rcases IrqPc.stopping_cases hirq hst with hi | hi
          · exact (hone h1).1 hi
          · exact (hone h1).2 hi
        change c.nextTaskIdx job < jobs.taskCount job
        omega
      runSubmit := by simp [SubmitPc.before] }

theorem Attachment.run {fail : Bool} (hw : Wf jobs c) (ha : Attachment jobs c)
    (hc : stopsFirst jobs c (.run fail) = true) (h : Move jobs c (.run fail) c') :
    Attachment jobs c' := by
  have hfl := hw.sched.flight_of_starting
  cases h
  case resumeFailed | attachFailed | resumed => exact { ha with
    attached := by simp
    runSubmit := by simp }
  case attached job hp _ => exact { ha with
    flight := fun j hf _ hs _ => absurd (hfl job j (by simp [hp, RunPc.starting]) hf) hs
    attached := by simp
    runSubmit := by simp }
  case runLocked job hp _ => exact { ha with
    attached := by simpa [hp] using ha.attached
    runSubmit := by simp }
  case runUnlocked => exact { ha with
    attached := by simp
    runSubmit := by simp }
  case stored job hp =>
    have hirq := (hw.locks.irq_outside (by simp [hp, RunPc.holds])).1
    -- what still ran would be a task of a job that was signalled
    have hex : c.exec = none := by
      by_contra he
      obtain ⟨⟨j, k⟩, he⟩ := Option.ne_none_iff_exists'.mp he
      have hi := hfl job j (by simp [hp, RunPc.starting]) (ha.exec j k he)
      simp [hi, IrqPc.holds] at hirq
    exact { ha with
      flight := by
        rintro j hj - - -
        obtain rfl := Option.some.inj hj
        exact ha.attached job (.inr hp)
      attached := by simp
      exec := by simp [hex]
      runSubmit := by simp [hex] }
  case runSubmit job p p' d hp hm => exact ha.runSubmits hw hc hp hm

theorem Attachment.irqSubmits {job : ℕ} {p p' : SubmitPc} {d : Core} (hw : Wf jobs c)
    (ha : Attachment jobs c) (hp : c.irq = .submit job p) (hm : SubmitMove job c p p' d) :
    Attachment jobs { d with irq := .submit job p' } := by
  have hrun := hw.locks.run_outside (.inl (by simp [hp, IrqPc.holds]))
  have hsub := hw.sched.irqSubmit job p hp
  have hreset : c.reset.holds = false := by
    by_contra hr
    simpa [hp, IrqPc.holds] using hw.locks.reset_inside (by simpa using hr)
  cases hm
  case enable k => exact { ha with
    flight := by simpa [hp] using ha.flight
    exec := by simp [hsub]
    closing := by simp [IrqPc.closing]
    detached := fun hd => absurd hd (ResetPc.ne_detached hreset)
    stopping := by simp [IrqPc.stopping]
    runSubmit := by simp [RunPc.ne_submit hrun] }
  all_goals exact { ha with
    flight := by simpa [hp] using ha.flight
    closing := by simp [IrqPc.closing]
    stopping := by simp [IrqPc.stopping] }

theorem Attachment.irq (hw : Wf jobs c) (ha : Attachment jobs c) (h : Move jobs c .irq c') :
    Attachment jobs c' := by
  cases h
  case disabled hp => exact { ha with
    flight := by simpa [hp] using ha.flight
    exec := by simp
    closing := by simp [IrqPc.closing]
    detached := by simp
    stopping := by simp
    runSubmit := by simp }
  case cleared hp | irqLocked hp _ => exact { ha with
    flight := by simpa [hp] using ha.flight
    closing := by simp [IrqPc.closing]
    stopping := fun _ => ha.stopping (by simp [hp, IrqPc.stopping]) }
  case nothingInFlight hp _ | irqSubmitted hp | irqUnlocked hp => exact { ha with
    flight := by simpa [hp] using ha.flight
    closing := by simp [IrqPc.closing]
    stopping := by simp [IrqPc.stopping] }
  case nextTask job hp _ _ => exact { ha with
    flight := by simpa [hp] using ha.flight
    closing := by simp [IrqPc.closing]
    stopping := by simp [IrqPc.stopping] }
  case lastTask job hp hf hlast =>
    -- a task still running would have tasks of its job left
    have hex : c.exec = none := by
      by_contra he
      obtain ⟨⟨j, k⟩, he⟩ := Option.ne_none_iff_exists'.mp he
      have hj := ha.exec j k he
      have hlt := ha.stopping (by simp [hp, IrqPc.stopping]) j k he
      rw [hf] at hj
      obtain rfl := Option.some.inj hj
      omega
    exact { ha with
      flight := by simpa [hp] using ha.flight
      closing := by simp [hex]
      stopping := by simp [hex] }
  case irqSubmit job p p' d hp hm => exact ha.irqSubmits hw hp hm
  case irqDetached job hp =>
    have hrun := hw.locks.run_outside (.inl (by simp [hp, IrqPc.holds]))
    have hfl (j : ℕ) := hw.sched.flight_of_starting j job
    have hcl := hw.sched.closing job (by simp [hp, IrqPc.closing])
    exact { ha with
      flight := by simp [hcl]
      attached := by
        rintro j (hj | hj)
        · simpa [hp] using hfl j (congrArg RunPc.starting hj) hcl.1
        · exact absurd hj (RunPc.ne_locked hrun j)
      closing := by simpa [IrqPc.closing, hp] using ha.closing
      stopping := by simp [IrqPc.stopping] }
  case signalled job hp => exact { ha with
    flight := by simpa [hp] using ha.flight
    closing := by simpa [IrqPc.closing, hp] using ha.closing
    stopping := by simp [IrqPc.stopping] }
  case finished job hp =>
    have hex := ha.closing job (by simp [hp, IrqPc.closing])
    exact { ha with
      flight := by simp
      exec := by simp [hex]
      closing := by simp [IrqPc.closing]
      stopping := by simp [IrqPc.stopping] }

theorem Attachment.reset (hw : Wf jobs c) (ha : Attachment jobs c)
    (hc : stopsFirst jobs c .reset = true) (h : Move jobs c .reset c') : Attachment jobs c' := by
  cases h
  case schedStopped hp _ | resetLocked hp _ | balanced hp | resetUnlocked hp | resetDone hp |
      schedStarted hp =>
    exact { ha with
      flight := by simpa [hp] using ha.flight
      detached := by simp }
  case resetDetached hp =>
    -- here the condition is used: the core has stopped
    have hex : c.exec = none := by simpa [stopsFirst, hp] using hc
    have hrun := hw.sched.runIdle (by simp [hw.sched.stops, hp, ResetPc.stops])
    exact { ha with
      flight := by simp
      attached := by simp [hrun]
      detached := by simp [hex] }
  case forgotten hp =>
    have hex := ha.detached hp
    exact { ha with
      flight := by simp
      exec := by simp [hex]
      detached := by simp }
  case coreReset hp => exact { ha with
    flight := by simpa [hp] using ha.flight
    exec := by simp
    closing := by simp
    detached := by simp
    stopping := by simp
    runSubmit := by simp }

theorem Attachment.move {a : Act} (hw : Wf jobs c) (ha : Attachment jobs c)
    (hc : stopsFirst jobs c a = true) (h : Move jobs c a c') : Attachment jobs c' := by
  cases a with
  | schedule job fail => exact ha.schedule h
  | run fail => exact ha.run hw hc h
  | irq => exact ha.irq hw h
  | reset => exact ha.reset hw hc h
  | irqThread spurious =>
    cases h with
    | entered hp _ => exact { ha with
      flight := by simpa [hp] using ha.flight
      closing := by simp [IrqPc.closing]
      stopping := by simp [IrqPc.stopping] }
  | timeout job =>
    cases h with
    | timedOut hp _ => exact { ha with
      flight := by simpa [hp] using ha.flight
      detached := by simp }
  | hardIrq =>
    cases h
    exact { ha with }
  | complete =>
    cases h
    exact { ha with
      exec := by simp
      closing := by simp
      detached := by simp
      stopping := by simp
      runSubmit := by simp }

/-- In every run that meets the condition, on a core bound with nothing in flight, the group of the
core while it works is attached to the domain of the job it works for. -/
theorem isolated_of_stopsFirst
    (h : Reachable (· = Core.init) (restrict (Step jobs) fun c a => stopsFirst jobs c a) c) :
    Isolated jobs c := by
  suffices hi : Wf jobs c ∧ Attachment jobs c from hi.2.isolated
  apply h.invariant (I := fun c => Wf jobs c ∧ Attachment jobs c)
  · rintro c rfl
    exact ⟨⟨.init, .init⟩, .init⟩
  · intro c a c' hi hs
    exact ⟨hi.1.step hs.1, hi.2.move hi.1 hs.2 hs.1.move⟩

def oneTask : Jobs := ⟨fun _ => 0, fun _ => 1⟩

/-- A job up to the return of its `rocket_job_run`. -/
def startJob : List Act := .schedule 0 false :: List.replicate 9 (.run false)

/-- The steps of a run that meet the condition. -/
def stepFirst (jobs : Jobs) (c : Core) (a : Act) : Option Core :=
  if stopsFirst jobs c a then c.step jobs a else none

theorem isolated_started :
    ∃ c, startJob.foldlM (stepFirst oneTask) Core.init = some c ∧ c.exec = some (0, 0) ∧
      Isolated oneTask c := by
  have hf : ∀ c a c', stepFirst oneTask c a = some c' →
      restrict (Step oneTask) (fun c a => stopsFirst oneTask c a) c a c' := by
    intro c a c' h
    unfold stepFirst at h
    split_ifs at h with hc
    exact ⟨h, hc⟩
  have h0 : Reachable (· = Core.init)
      (restrict (Step oneTask) fun c a => stopsFirst oneTask c a) Core.init := .start rfl
  have hexec : (startJob.foldlM (stepFirst oneTask) Core.init).map Core.exec =
      some (some (0, 0)) := rfl
  obtain ⟨c, hc, hexec⟩ := Option.map_eq_some_iff.mp hexec
  exact ⟨c, hc, hexec, isolated_of_stopsFirst (h0.foldlM hf hc)⟩

/-- The job hangs, and its timeout detaches the group with the core still at work. -/
def hangingJob : List Act := startJob ++ Act.timeout 0 :: List.replicate 4 Act.reset

theorem not_isolated :
    ∃ c, Reachable (· = Core.init) (Step oneTask) c ∧ c.exec = some (0, 0) ∧ c.group = none ∧
      ¬ Isolated oneTask c := by
  have h0 : Reachable (· = Core.init) (Step oneTask) Core.init := .start rfl
  have hend : (hangingJob.foldlM (Core.step oneTask) Core.init).map
      (fun c => (c.exec, c.group)) = some (some (0, 0), none) := rfl
  obtain ⟨c, hc, hcg⟩ := Option.map_eq_some_iff.mp hend
  obtain ⟨hexec, hgroup⟩ := Prod.mk.inj hcg
  refine ⟨c, h0.foldlM (fun _ _ _ h => h) hc, hexec, hgroup, fun h => ?_⟩
  simpa [hgroup] using h 0 0 hexec

end RocketNpu.Job
