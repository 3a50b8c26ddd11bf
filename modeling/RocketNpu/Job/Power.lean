import RocketNpu.Errno
import RocketNpu.Job.Usage

namespace RocketNpu.Job
open Runs

variable {jobs : Jobs} {c c' : Core}

/-- A core with its runtime-PM state. -/
structure Device where
  core : Core
  /-- Runtime-resumed. -/
  awake : Bool
  /-- Usage counts held by others than the job path. -/
  others : ℕ

/-- The PM core acts on the device, or one of its interrupt and job threads takes a step. -/
inductive PmEvent where
  | job (a : Act)
  | handler (raw : Bool)
  | get
  | put
  | suspend (devfreq : Option Errno) (off : Bool)
  | resume (clocks : Option Errno)
deriving DecidableEq, Repr

/-- `credit_count` is zero: no job is handed out, or `drm_sched_stop` took its credit back. -/
def rocketJobIsIdle (c : Core) : Bool := c.current.isNone || c.stopped

/-- What a power domain that goes off takes with it. -/
def Core.powerOff (c : Core) : Core :=
  { c with exec := none, rawStatus := false, intMask := false }

/-- `rocket_device_runtime_suspend` of a bound core; `devfreq` is what
`rocket_devfreq_suspend` returns. -/
def rocketDeviceRuntimeSuspend (devfreq : Option Errno) (off : Bool) (d : Device) :
    Except Errno Device :=
  if rocketJobIsIdle d.core then
    match devfreq with
    | some e => .error e
    | none => .ok { d with core := if off then d.core.powerOff else d.core, awake := false }
  else .error .ebusy

def rocketDeviceRuntimeResume (clocks : Option Errno) (d : Device) : Except Errno Device :=
  match clocks with
  | some e => .error e
  | none => .ok { d with awake := true }

/-- `rocket_job_irq_handler`, called for an interrupt of either device on the line. It reads
INTERRUPT_RAW_STATUS; on a sleeping core the read gives `raw`. -/
def rocketJobIrqHandlerShared (raw : Bool) (d : Device) : Device :=
  if (if d.awake then d.core.rawStatus else raw) then
    { d with core := { d.core with intMask := false, woken := true } }
  else d

/-- `pm_runtime_get_sync` of `rocket_job_run` returns with the core resumed. -/
def resumes (c : Core) : Act → Bool
  | .run fail =>
    match c.run with
    | .fenced _ => !fail
    | _ => false
  | _ => false

/-- A step of the job threads or the hardware. The IRQ thread runs only when woken, the
hard handler is `PmEvent.handler`, and a sleeping core completes nothing. -/
def Device.job (jobs : Jobs) (a : Act) (d : Device) : Option Device :=
  if a = .hardIrq ∨ a = .irqThread true ∨ a = .complete ∧ d.awake = false then none
  else (d.core.step jobs a).map fun c =>
    { d with core := c, awake := d.awake || resumes d.core a }

def Device.step (jobs : Jobs) (d : Device) : PmEvent → Option Device
  | .job a => d.job jobs a
  | .handler raw => some (rocketJobIrqHandlerShared raw d)
  | .get => some { d with others := d.others + 1 }
  | .put => if 0 < d.others then some { d with others := d.others - 1 } else none
  | .suspend devfreq off =>
    if d.awake ∧ d.core.usage + d.others = 0 then
      match rocketDeviceRuntimeSuspend devfreq off d with
      | .error _ => some d
      | .ok d => some d
    else none
  | .resume clocks =>
    match rocketDeviceRuntimeResume clocks d with
    | .error _ => some d
    | .ok d => some d

def Device.Step (jobs : Jobs) (d : Device) (e : PmEvent) (d' : Device) : Prop :=
  d.step jobs e = some d'

/-- The next step of `rocket_job_hw_submit` writes registers. -/
def SubmitPc.writes (c : Core) : SubmitPc → Bool
  | .check => !c.resetPending
  | .fin => false
  | _ => true

/-- The next step of the IRQ thread writes OPERATION_ENABLE or INTERRUPT_CLEAR. -/
def IrqPc.stops : IrqPc → Bool
  | .entered | .disabled => true
  | _ => false

/-- The event reads or writes registers of the core. -/
def Device.accesses (d : Device) : PmEvent → Bool
  | .job (.run _) =>
    match d.core.run with
    | .submit _ p => p.writes d.core
    | _ => false
  | .job .irq =>
    match d.core.irq with
    | .submit _ p => p.writes d.core
    | p => p.stops
  | .handler _ => true
  | _ => false

/-- The line raises no interrupt while the core sleeps, and the core does not go to sleep
between the waking of its IRQ thread and the thread's write of INTERRUPT_CLEAR. -/
def quiet (d : Device) : PmEvent → Bool
  | .handler _ => d.awake
  | .suspend _ _ => !d.core.woken && !d.core.irq.stops
  | _ => true

/-- After `rocket_core_init`. -/
def Probed (d : Device) : Prop := d.core = .init

/-- What keeps the core awake: a count that is owed, or a thread on its way. -/
structure Awake (d : Device) : Prop where
  usage : d.core.owed ≤ d.core.usage
  owed : 0 < d.core.owed → d.awake = true
  woken : d.core.woken = true ∨ d.core.irq.stops = true → d.awake = true

theorem Wf.powerOff (h : Wf jobs c) : Wf jobs c.powerOff :=
  ⟨{ h.locks with }, { h.sched with }⟩

theorem Wf.wake (h : Wf jobs c) (b : Bool) : Wf jobs { c with intMask := false, woken := b } :=
  ⟨{ h.locks with }, { h.sched with }⟩

theorem Core.owed_pos_iff : 0 < c.owed ↔
    c.run.powers = true ∨ c.inFlightJob.isSome = true ∧ c.reset.settles = false := by
  unfold Core.owed
  split_ifs <;> simp_all

/-- A count starts to be owed only with the core resumed. -/
theorem Move.owed_pos {a : Act} (h : Move jobs c a c') (ho : 0 < c'.owed) :
    0 < c.owed ∨ resumes c a = true := by
  rw [Core.owed_pos_iff] at ho ⊢
  cases h
  case resumed hrun => exact .inr (by simp [resumes, hrun])
  case attached hrun _ | runLocked hrun _ | stored hrun =>
    exact .inl (.inl (by simp [hrun, RunPc.powers]))
  case scheduled hrun _ _ _ _ | resumeFailed hrun | runUnlocked hrun =>
    exact .inl (by simpa [hrun, RunPc.powers] using ho)
  case attachFailed => exact .inl (.inr (by simpa [RunPc.powers] using ho))
  case runSubmit hrun hm =>
    obtain ⟨-, -, h3⟩ := hm.usage
    obtain ⟨-, -, -, h5⟩ := hm.jobLock
    exact .inl (by simpa [hrun, RunPc.powers, h3, h5] using ho)
  case irqSubmit hm =>
    obtain ⟨-, -, h3⟩ := hm.usage
    obtain ⟨-, h4, -, h5⟩ := hm.jobLock
    exact .inl (by simpa [h3, h4, h5] using ho)
  case finished | balanced | forgotten =>
    exact .inl (.inl (by simpa [ResetPc.settles] using ho))
  case timedOut hr _ | schedStopped hr _ | resetLocked hr _ | resetDetached hr |
      resetUnlocked hr | coreReset hr | resetDone hr | schedStarted hr =>
    exact .inl (by simpa [hr, ResetPc.settles] using ho)
  all_goals exact .inl ho

/-- The IRQ thread is woken by the handler and comes to its two writes only when woken. -/
theorem Move.stops_of_woken {a : Act} (h : Move jobs c a c') (ha : a ≠ .hardIrq)
    (ht : a ≠ .irqThread true) (hk : c'.woken = true ∨ c'.irq.stops = true) :
    c.woken = true ∨ c.irq.stops = true := by
  cases h
  case entered spurious _ hwoken => exact .inl (hwoken.resolve_right fun hs => ht (by rw [hs]))
  case disabled hirq => exact .inr (by rw [hirq, IrqPc.stops])
  case woken => exact absurd rfl ha
  case cleared | irqLocked | nothingInFlight | nextTask | lastTask | irqSubmitted |
      irqDetached | signalled | finished | irqUnlocked =>
    exact .inl (by simpa [IrqPc.stops] using hk)
  case irqSubmit hm => cases hm <;> exact .inl (by simpa [IrqPc.stops] using hk)
  case runSubmit hm => cases hm <;> exact hk
  all_goals exact hk

theorem Awake.probed {d : Device} (h : Probed d) : Awake d := by
  obtain ⟨c, awake, others⟩ := d
  obtain rfl : c = .init := h
  constructor
  · exact Int.le_refl 0
  · exact fun ho => absurd (show 0 < Core.init.owed from ho) (by decide)
  · rintro (hk | hk) <;> cases hk

theorem Awake.job {d d' : Device} {a : Act} (hw : Wf jobs d.core) (hd : Awake d)
    (h : d.job jobs a = some d') : Wf jobs d'.core ∧ Awake d' := by
  unfold Device.job at h
  split_ifs at h with hg
  obtain ⟨ha, ht, -⟩ := not_or.mp hg |>.imp id not_or.mp
  obtain ⟨c, hc, rfl⟩ := Option.map_eq_some_iff.mp h
  have hs : Step jobs d.core a c := hc
  refine ⟨hw.step hs, ?_, fun ho => ?_, fun hk => ?_⟩
  · have howed := hs.move.owed hw
    have husage := hd.usage
    change c.owed ≤ c.usage
    split_ifs at howed <;> omega
  · rcases hs.move.owed_pos ho with ho | hr
    · simp [hd.owed ho]
    · simp [hr]
  · simp [hd.woken (hs.move.stops_of_woken ha ht hk)]

theorem Awake.handler {d : Device} (hw : Wf jobs d.core) (hd : Awake d) (raw : Bool)
    (hc : d.awake = true) : Wf jobs (rocketJobIrqHandlerShared raw d).core ∧
      Awake (rocketJobIrqHandlerShared raw d) := by
  unfold rocketJobIrqHandlerShared
  by_cases hr : (if d.awake then d.core.rawStatus else raw) = true
  · rw [if_pos hr]
    exact ⟨hw.wake true, hd.usage, fun _ => hc, fun _ => hc⟩
  · rw [if_neg hr]
    exact ⟨hw, hd⟩

theorem Awake.suspend {d : Device} (hw : Wf jobs d.core) (hd : Awake d)
    {devfreq : Option Errno} {off : Bool} (hu : d.core.usage + d.others = 0)
    (hc : quiet d (.suspend devfreq off) = true) {d' : Device}
    (h : rocketDeviceRuntimeSuspend devfreq off d = .ok d') : Wf jobs d'.core ∧ Awake d' := by
  unfold rocketDeviceRuntimeSuspend at h
  split at h
  · cases devfreq with
    | some e => cases h
    | none =>
      cases h
      have husage := hd.usage
      have howed : ¬ 0 < d.core.owed := by omega
      have hstill : ¬ (d.core.woken = true ∨ d.core.irq.stops = true) := by
        simpa [quiet] using hc
      cases off
      · exact ⟨hw, husage, fun ho => absurd ho howed, fun hk => absurd hk hstill⟩
      · exact ⟨hw.powerOff, husage, fun ho => absurd ho howed, fun hk => absurd hk hstill⟩
  · cases h

theorem Awake.step {d d' : Device} {e : PmEvent} (hw : Wf jobs d.core) (hd : Awake d)
    (hc : quiet d e = true) (h : d.Step jobs e d') : Wf jobs d'.core ∧ Awake d' := by
  unfold Device.Step Device.step at h
  cases e with
  | job a => exact hd.job hw h
  | handler raw =>
    cases h
    exact hd.handler hw raw hc
  | get =>
    cases h
    exact ⟨hw, { hd with }⟩
  | put =>
    simp only at h
    split_ifs at h
    cases h
    exact ⟨hw, { hd with }⟩
  | suspend devfreq off =>
    simp only at h
    split_ifs at h with hg
    split at h
    · cases h
      exact ⟨hw, hd⟩
    · next heq =>
      cases h
      exact hd.suspend hw hg.2 hc heq
  | resume clocks =>
    cases clocks with
    | some e =>
      cases h
      exact ⟨hw, hd⟩
    | none =>
      cases h
      exact ⟨hw, hd.usage, fun _ => rfl, fun _ => rfl⟩

/-- A submission works for the job in flight, whose count is owed. -/
theorem Wf.owed_of_submit (hw : Wf jobs c) {job : ℕ} {p : SubmitPc}
    (h : c.run = .submit job p ∨ c.irq = .submit job p) : 0 < c.owed := by
  have hf : c.inFlightJob = some job ∧ c.reset.holds = false := by
    rcases h with h | h
    · exact ⟨(hw.sched.runSubmit job p h).1, (hw.locks.irq_outside (by simp [h, RunPc.holds])).2⟩
    · exact ⟨(hw.sched.irqSubmit job p h).1, hw.reset_outside (by simp [h, IrqPc.holds])⟩
  exact Core.owed_pos_iff.mpr (.inr ⟨by simp [hf.1], ResetPc.settles_of_outside hf.2⟩)

/-- In every run that meets the condition, each register access of the handler, of the IRQ
thread and of a submission finds the core resumed. -/
theorem accesses_awake {d d' : Device} {e : PmEvent}
    (h : Reachable Probed (restrict (Device.Step jobs) fun d e => quiet d e) d)
    (hs : d.Step jobs e d') (hc : quiet d e = true) (ha : d.accesses e = true) :
    d.awake = true := by
  have hi : Wf jobs d.core ∧ Awake d := by
    apply h.invariant (I := fun d => Wf jobs d.core ∧ Awake d)
    · intro d hd
      exact ⟨hd ▸ ⟨.init, .init⟩, .probed hd⟩
    · intro d e d' hi hs
      exact hi.2.step hi.1 hs.2 hs.1
  obtain ⟨hw, hd⟩ := hi
  cases e with
  | handler raw => exact hc
  | job a =>
    cases a with
    | run fail =>
      simp only [Device.accesses] at ha
      split at ha
      · next hrun => exact hd.owed (hw.owed_of_submit (.inl hrun))
      · cases ha
    | irq =>
      simp only [Device.accesses] at ha
      split at ha
      · next hirq => exact hd.owed (hw.owed_of_submit (.inr hirq))
      · exact hd.woken (.inr ha)
    | _ => cases ha
  | _ => cases ha

/-- A probed core, still resumed. -/
def probed : Device := ⟨.init, true, 0⟩

def quietStep (jobs : Jobs) (d : Device) (e : PmEvent) : Option Device :=
  if quiet d e then d.step jobs e else none

/-- A job whose task completes, up to the start of the IRQ thread. -/
def interruptedJob : List PmEvent :=
  startJob.map .job ++ [.job .complete, .handler false, .job (.irqThread false)]

theorem accesses_awake_interrupted :
    ∃ d d', interruptedJob.foldlM (quietStep oneTask) probed = some d ∧
      d.Step oneTask (.job .irq) d' ∧ d.accesses (.job .irq) = true ∧ d.awake = true := by
  have hf : ∀ d e d', quietStep oneTask d e = some d' →
      restrict (Device.Step oneTask) (fun d e => quiet d e) d e d' := by
    intro d e d' h
    unfold quietStep at h
    split_ifs at h with hc
    exact ⟨h, hc⟩
  have h0 : Reachable Probed (restrict (Device.Step oneTask) fun d e => quiet d e) probed :=
    .start rfl
  have hend : (interruptedJob.foldlM (quietStep oneTask) probed).map
      (fun d => ((d.step oneTask (.job .irq)).isSome, d.accesses (.job .irq))) =
      some (true, true) := rfl
  obtain ⟨d, hd, heq⟩ := Option.map_eq_some_iff.mp hend
  obtain ⟨hstep, hacc⟩ := Prod.mk.inj heq
  obtain ⟨d', hd'⟩ := Option.isSome_iff_exists.mp hstep
  exact ⟨d, d', hd, hd', hacc, accesses_awake (h0.foldlM hf hd) hd' rfl hacc⟩

/-- The job hangs until its timeout, and its task completes just before: the reset drops the
reference, the core goes to sleep, and the thread woken for the task starts only then. -/
def lateWrite : List PmEvent :=
  startJob.map .job ++ [.job .complete, .handler false, .job (.timeout 0)] ++
    List.replicate 9 (.job .reset) ++ [.suspend none true, .job (.irqThread false)]

/-- The handler runs for the other device's interrupt while the core sleeps; and an IRQ
thread that runs after a reset writes to a core that went to sleep. -/
theorem not_accesses_awake :
    (∃ d, Reachable Probed (Device.Step oneTask) d ∧ d.awake = false ∧
      (d.step oneTask (.handler false)).isSome ∧ d.accesses (.handler false) = true) ∧
    ∃ d, Reachable Probed (Device.Step oneTask) d ∧ d.awake = false ∧
      (d.step oneTask (.job .irq)).isSome ∧ d.accesses (.job .irq) = true := by
  have h0 : Reachable Probed (Device.Step oneTask) probed := .start rfl
  constructor
  · exact ⟨⟨.init, false, 0⟩, h0.step (e := .suspend none false) rfl, rfl, rfl, rfl⟩
  · have hend : (lateWrite.foldlM (Device.step oneTask) probed).map
        (fun d => (d.awake, (d.step oneTask (.job .irq)).isSome, d.accesses (.job .irq))) =
        some (false, true, true) := rfl
    obtain ⟨d, hd, heq⟩ := Option.map_eq_some_iff.mp hend
    simp only [Prod.mk.injEq] at heq
    exact ⟨d, h0.foldlM (fun _ _ _ h => h) hd, heq⟩

end RocketNpu.Job
