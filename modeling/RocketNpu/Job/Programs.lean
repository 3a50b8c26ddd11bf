import Mathlib.Data.List.Forall2
import RocketNpu.Job.Power
import RocketNpu.Job.Registers
import RocketNpu.Job.Stepping
import RocketNpu.Lib.WordFile

namespace RocketNpu.Job
open Runs Registers WordFile Drm

/-- What the registers of a core hold. -/
abbrev RegFile := Iomem × ℕ → BitVec 32

def cells (ws : List Write) : List ((Iomem × ℕ) × BitVec 32) :=
  ws.map fun x => ((x.iomem, x.offset), x.word)

/-- The interrupt handler and its thread write these too, without `job_lock`. -/
def interruptRegs (r : Iomem × ℕ) : Prop :=
  r = (.pc, regPcInterruptMask) ∨ r = (.pc, regPcInterruptClear)

/-- All that `rocket_job_hw_submit` writes for a task. -/
def program (index : BitVec 32) (task : Task) : List Write :=
  Registers.rocketJobHwSubmit false index task

/-- How much of it is written when a submission stands here. -/
def SubmitPc.written : SubmitPc → ℕ
  | .check => 0
  | .intMask _ => 5
  | .intClear _ => 6
  | .operationEnable _ => 7
  | .fin => 10

/-- What the next step of a submission writes; `tasks` are those of the job. -/
def submitWrites (index : BitVec 32) (tasks : ℕ → Task) (job : ℕ) (c : Core) :
    SubmitPc → List Write
  | .check =>
    if c.resetPending then [] else (program index (tasks (c.nextTaskIdx job))).take 5
  | .intMask k => ((program index (tasks k)).drop 5).take 1
  | .intClear k => ((program index (tasks k)).drop 6).take 1
  | .operationEnable k => (program index (tasks k)).drop 7
  | .fin => []

/-- A core with its registers, and with the job and the registers of every start, latest
first. -/
structure Machine where
  device : Device
  regs : RegFile
  starts : List (ℕ × RegFile)

/-- The registers as the tasks of a job were started. -/
def Machine.programs (m : Machine) (job : ℕ) : List RegFile :=
  (m.starts.filterMap fun s => if s.1 = job then some s.2 else none).reverse

section step

variable (jobs : Jobs) (index : BitVec 32) (tasks : ℕ → ℕ → Task)

def Device.writes (d : Device) : PmEvent → List Write
  | .job (.run _) =>
    match d.core.run with
    | .submit job p => submitWrites index (tasks job) job d.core p
    | _ => []
  | .job .irq =>
    match d.core.irq with
    | .entered => [rocketPcWritel regPcOperationEnable (0 : BitVec 32)]
    | .disabled => [rocketPcWritel regPcInterruptClear (0x1ffff : BitVec 32)]
    | .submit job p => submitWrites index (tasks job) job d.core p
    | _ => []
  | .handler raw =>
    if (if d.awake then d.core.rawStatus else raw) then
      [rocketPcWritel regPcInterruptMask (0 : BitVec 32)]
    else []
  | _ => []

/-- The registers are reset, lose their power, or belong to a core that sleeps. -/
def Device.loses (d d' : Device) : PmEvent → Bool
  | .job .reset => d.core.reset = .unlocked || !d.awake
  | .suspend _ off => off && !d'.awake
  | _ => !d.awake

def SubmitPc.starts (job : ℕ) : SubmitPc → Option ℕ
  | .operationEnable _ => some job
  | _ => none

def RunPc.starts : RunPc → Option ℕ
  | .submit job p => p.starts job
  | _ => none

def IrqPc.starts : IrqPc → Option ℕ
  | .submit job p => p.starts job
  | _ => none

/-- The job whose task the event starts. -/
def Device.starts (d : Device) : PmEvent → Option ℕ
  | .job (.run _) => d.core.run.starts
  | .job .irq => d.core.irq.starts
  | _ => none

def recordStart (regs : RegFile) (starts : List (ℕ × RegFile)) : Option ℕ → List (ℕ × RegFile)
  | some job => (job, regs) :: starts
  | none => starts

/-- Registers that are lost hold anything, `e.2`. -/
def Machine.step (m : Machine) (e : PmEvent × RegFile) : Option Machine :=
  (m.device.step jobs e.1).map fun d =>
    let regs := if m.device.loses d e.1 then e.2
      else writes m.regs (cells (m.device.writes index tasks e.1))
    { device := d
      regs := regs
      starts := recordStart regs m.starts (m.device.starts e.1) }

def Machine.Step (m : Machine) (e : PmEvent × RegFile) (m' : Machine) : Prop :=
  m.step jobs index tasks e = some m'

end step

def Machine.Start (m : Machine) : Prop := Probed m.device ∧ m.starts = []

variable {jobs : Jobs} {index : BitVec 32} {tasks : ℕ → ℕ → Task} {c c' : Core} {d d' : Device}
  {m m' : Machine}

/-- A submission that has something in hand keeps the core from going to sleep. -/
structure Resumed (d : Device) : Prop where
  usage : d.core.owed ≤ d.core.usage
  owed : 0 < d.core.owed → d.awake = true

theorem Resumed.probed (h : Probed d) : Resumed d := by
  obtain ⟨c, awake, others⟩ := d
  obtain rfl : c = .init := h
  refine ⟨Int.le_refl 0, fun ho => ?_⟩
  exact absurd (show 0 < Core.init.owed from ho) (by decide)

theorem Resumed.job (hw : Wf jobs d.core) (hr : Resumed d) {a : Act} (hs : Step jobs d.core a c') :
    Resumed ⟨c', d.awake || resumes d.core a, d.others⟩ := by
  refine ⟨?_, fun ho => ?_⟩
  · have howed := hs.move.owed hw
    have husage := hr.usage
    show c'.owed ≤ c'.usage
    split_ifs at howed <;> omega
  · rcases hs.move.owed_pos ho with ho | hres
    · simp [hr.owed ho]
    · simp [hres]

/-- A submission is under way. -/
def Core.Submits (c : Core) (job : ℕ) (p : SubmitPc) : Prop :=
  c.run = .submit job p ∨ c.irq = .submit job p

theorem Resumed.awake_of_submits (hw : Wf jobs d.core) (hr : Resumed d) {job : ℕ} {p : SubmitPc}
    (h : d.core.Submits job p) : d.awake = true :=
  hr.owed (hw.owed_of_submit h)

/-- A step is one of a submission, or it neither starts a task nor takes one. -/
inductive Progress (c : Core) : Act → Core → Prop where
  | run {fail : Bool} {job : ℕ} {p p' : SubmitPc} {d : Core} : c.run = .submit job p →
      SubmitMove job c p p' d → Progress c (.run fail) { d with run := .submit job p' }
  | irq {job : ℕ} {p p' : SubmitPc} {d : Core} : c.irq = .submit job p →
      SubmitMove job c p p' d → Progress c .irq { d with irq := .submit job p' }
  | other {a : Act} {c' : Core} : (∀ j, c'.startedTasks j = c.startedTasks j) →
      (∀ j p, p.task.isSome → c'.Submits j p → c.Submits j p) →
      (∀ fail j p, a = .run fail → c.run = .submit j p → p = .fin) →
      (∀ j p, a = .irq → c.irq = .submit j p → p = .fin) → Progress c a c'

theorem Move.progress {a : Act} (h : Move jobs c a c') : Progress c a c' := by
  cases h
  case runSubmit hp hm => exact .run hp hm
  case irqSubmit hp hm => exact .irq hp hm
  case stored hp =>
    refine .other (fun _ => rfl) (fun j p htask h => ?_) (by simp [hp]) (by simp)
    rcases h with h | h
    · cases h
      cases htask
    · exact .inr h
  case nextTask hp _ _ =>
    refine .other (fun _ => rfl) (fun j p htask h => ?_) (by simp) (by simp [hp])
    rcases h with h | h
    · exact .inl h
    · cases h
      cases htask
  case signalled hp =>
    refine .other (fun j => ?_) (fun j p _ h => ?_) (by simp) (by simp [hp])
    · simp only [Core.startedTasks]
      rw [List.filterMap_cons_none rfl]
    · exact .inl (h.resolve_right (by simp))
  case completed =>
    refine .other (fun j => ?_) (fun _ _ _ h => h) (by simp) (by simp)
    simp only [Core.startedTasks]
    rw [List.filterMap_cons_none rfl]
  all_goals
    refine .other (fun _ => rfl) ?_ ?_ ?_
    · simp_all [Core.Submits]
    · simp_all
    · simp_all

/-- What a submission in hand has written so far is in the registers, and all of a program was
when its task was started. -/
structure Machine.Ok (jobs : Jobs) (index : BitVec 32) (tasks : ℕ → ℕ → Task) (m : Machine) :
    Prop where
  wf : Wf jobs m.device.core
  resumed : Resumed m.device
  stepping : Stepping jobs m.device.core
  hand : ∀ job p k, m.device.core.Submits job p → p.task = some k →
    Holds interruptRegs (cells ((program index (tasks job k)).take p.written)) m.regs
  programs : ∀ job, List.Forall₂
    (fun k regs => Holds interruptRegs (cells (program index (tasks job k))) regs)
    (m.device.core.startedTasks job) (m.programs job)

theorem Machine.Start.ok (h : m.Start) : m.Ok jobs index tasks := by
  obtain ⟨d, regs, starts⟩ := m
  obtain ⟨c, awake, others⟩ := d
  obtain ⟨hp, hs⟩ := h
  obtain rfl : c = .init := hp
  obtain rfl : starts = [] := hs
  refine ⟨⟨Locks.init, Sched.init⟩, .probed rfl, Stepping.init, fun job p k h => ?_,
    fun job => .nil⟩
  rcases h with h | h <;> cases h

/-- Only a submission writes what is not the interrupt path's. -/
def Foreign (ws : List Write) : Prop := ∀ x ∈ ws,
  interruptRegs (x.iomem, x.offset) ∨ (x.iomem, x.offset) = (.pc, regPcOperationEnable)

theorem holds_foreign {job k : ℕ} {p : SubmitPc} {regs : RegFile} {ws : List Write}
    (h : Holds interruptRegs (cells ((program index (tasks job k)).take p.written)) regs)
    (hp : p.task.isSome = true) (hws : Foreign ws) :
    Holds interruptRegs (cells ((program index (tasks job k)).take p.written))
      (writes regs (cells ws)) := by
  apply h.writes
  intro u hu
  obtain ⟨x, hx, rfl⟩ := List.mem_map.mp hu
  refine (hws x hx).imp_right fun he => ?_
  -- OPERATION_ENABLE is written last
  have hnone : ∀ p : SubmitPc, p.task.isSome = true → lastAt (Iomem.pc, regPcOperationEnable)
      (cells ((program index (tasks job k)).take p.written)) = none := by
    intro p hp
    cases p with
    | check | fin => cases hp
    | intMask | intClear | operationEnable => rfl
  exact he ▸ hnone p hp

/-- An event that is no step of a submission. -/
theorem Machine.Ok.other (hm : m.Ok jobs index tasks) (hw : Wf jobs d.core) (hr : Resumed d)
    (hs : Stepping jobs d.core)
    (hlog : ∀ j, d.core.startedTasks j = m.device.core.startedTasks j)
    (hhand : ∀ j p, p.task.isSome → d.core.Submits j p → m.device.core.Submits j p)
    {regs : RegFile} (hregs : (∀ j p, ¬ m.device.core.Submits j p) ∨
      ∃ ws, Foreign ws ∧ regs = writes m.regs (cells ws)) :
    (⟨d, regs, m.starts⟩ : Machine).Ok jobs index tasks where
  wf := hw
  resumed := hr
  stepping := hs
  hand job p k h hk := by
    have hsome : p.task.isSome = true := by simp [hk]
    have hsub := hhand job p hsome h
    rcases hregs with hnone | ⟨ws, hws, rfl⟩
    · exact absurd hsub (hnone job p)
    · exact holds_foreign (hm.hand job p k hsub hk) hsome hws
  programs job := by
    show List.Forall₂ _ (d.core.startedTasks job) _
    rw [hlog job]
    exact hm.programs job

theorem programs_cons (d : Device) (regs : RegFile) (starts : List (ℕ × RegFile)) (job j : ℕ) :
    Machine.programs ⟨d, regs, (job, regs) :: starts⟩ j =
      if job = j then Machine.programs ⟨d, regs, starts⟩ j ++ [regs]
      else Machine.programs ⟨d, regs, starts⟩ j := by
  unfold Machine.programs
  by_cases h : job = j
  · simp [h]
  · simp [h]

/-- One of the two threads steps through `rocket_job_hw_submit`. -/
theorem Machine.Ok.submits (hm : m.Ok jobs index tasks) {job : ℕ} {p p' : SubmitPc} {e : Core}
    (hp : m.device.core.Submits job p) (hmove : SubmitMove job m.device.core p p' e)
    (hw : Wf jobs d.core) (hr : Resumed d) (hs : Stepping jobs d.core)
    (hlog : d.core.log = e.log)
    (hhand : ∀ j q, d.core.Submits j q → j = job ∧ q = p') {regs : RegFile}
    (hregs : regs = writes m.regs (cells (submitWrites index (tasks job) job m.device.core p))) :
    (⟨d, regs, recordStart regs m.starts (p.starts job)⟩ : Machine).Ok jobs index tasks := by
  have hold {k : ℕ} (hk : p.task = some k) := hm.hand job p k hp hk
  have hsame {t : List (ℕ × RegFile)} (ht : t = m.starts) (he : e.log = m.device.core.log)
      (j : ℕ) : List.Forall₂
        (fun k regs => Holds interruptRegs (cells (program index (tasks j k))) regs)
        (d.core.startedTasks j) (Machine.programs ⟨d, regs, t⟩ j) := by
    have hstarted : d.core.startedTasks j = m.device.core.startedTasks j := by
      unfold Core.startedTasks
      rw [hlog, he]
    rw [hstarted, ht]
    exact hm.programs j
  have hnext {k : ℕ} {ws us : List Write}
      (hws : Holds interruptRegs (cells ws) m.regs)
      (hus : submitWrites index (tasks job) job m.device.core p = us)
      (happ : (program index (tasks job k)).take p'.written = ws ++ us) :
      Holds interruptRegs (cells ((program index (tasks job k)).take p'.written)) regs := by
    rw [happ, hregs, hus, cells, List.map_append]
    exact hws.append _
  refine ⟨hw, hr, hs, fun j q k hq hk => ?_, fun j => ?_⟩
  · obtain ⟨rfl, rfl⟩ := hhand j q hq
    cases hmove with
    | skip => cases hk
    | take hpend =>
      cases hk
      have hnil : Holds interruptRegs (cells []) m.regs := .nil
      exact hnext hnil (if_neg (by simp [hpend])) rfl
    | mask k =>
      cases hk
      exact hnext (hold rfl) rfl rfl
    | clear k =>
      cases hk
      exact hnext (hold rfl) rfl rfl
    | enable k => cases hk
  · cases hmove with
    | skip => exact hsame rfl rfl j
    | take hpend => exact hsame rfl rfl j
    | mask k => exact hsame rfl rfl j
    | clear k => exact hsame rfl rfl j
    | enable k =>
      have hstarted : d.core.startedTasks j = if job = j then m.device.core.startedTasks j ++ [k]
          else m.device.core.startedTasks j := by
        rw [← Core.startedTasks_cons]
        unfold Core.startedTasks
        rw [hlog]
      rw [hstarted, SubmitPc.starts, recordStart, programs_cons]
      split_ifs with hj
      · subst hj
        exact List.rel_append (hm.programs job) (.cons (hnext (hold rfl) rfl rfl) .nil)
      · exact hm.programs j

theorem Machine.Ok.lost_or_written (lost : RegFile) {e : PmEvent}
    (hws : Foreign (m.device.writes index tasks e))
    (hlost : m.device.loses d e = true → ∀ j p, ¬ m.device.core.Submits j p) :
    (∀ j p, ¬ m.device.core.Submits j p) ∨
      ∃ ws, Foreign ws ∧ (if m.device.loses d e then lost
        else writes m.regs (cells (m.device.writes index tasks e))) =
          writes m.regs (cells ws) := by
  cases hl : m.device.loses d e with
  | true => exact .inl (hlost hl)
  | false => exact .inr ⟨_, hws, rfl⟩

/-- Registers are lost only while no submission is under way. -/
theorem Machine.Ok.lost_idle (hm : m.Ok jobs index tasks) {a : Act}
    (hl : m.device.loses d (.job a) = true) (j : ℕ) (p : SubmitPc) :
    ¬ m.device.core.Submits j p := by
  intro hsub
  have hawake := hm.resumed.awake_of_submits hm.wf hsub
  have hflight : m.device.core.inFlightJob = some j := by
    rcases hsub with hsub | hsub
    · exact (hm.wf.sched.runSubmit j p hsub).1
    · exact (hm.wf.sched.irqSubmit j p hsub).1
  cases a with
  | reset =>
    have hreset : m.device.core.reset = .unlocked := by simpa [Device.loses, hawake] using hl
    have hnone := hm.wf.sched.forgot (by simp [hreset, ResetPc.forgot])
    simp [hnone] at hflight
  | _ => simp [Device.loses, hawake] at hl

/-- Outside `rocket_job_hw_submit` the job path writes only what belongs to the interrupts. -/
theorem Device.outside (index : BitVec 32) (tasks : ℕ → ℕ → Task) {a : Act}
    (hrun : ∀ fail j p, a = .run fail → d.core.run = .submit j p → p = .fin)
    (hirq : ∀ j p, a = .irq → d.core.irq = .submit j p → p = .fin) :
    d.starts (.job a) = none ∧ Foreign (d.writes index tasks (.job a)) := by
  have hnil : Foreign [] := fun x hx => by cases hx
  cases a with
  | run fail =>
    cases hp : d.core.run with
    | submit j p =>
      obtain rfl := hrun fail j p rfl hp
      exact ⟨by simp [Device.starts, RunPc.starts, SubmitPc.starts, hp],
        by simpa [Device.writes, submitWrites, hp] using hnil⟩
    | _ =>
      exact ⟨by simp [Device.starts, RunPc.starts, hp], by simpa [Device.writes, hp] using hnil⟩
  | irq =>
    cases hp : d.core.irq with
    | submit j p =>
      obtain rfl := hirq j p rfl hp
      exact ⟨by simp [Device.starts, IrqPc.starts, SubmitPc.starts, hp],
        by simpa [Device.writes, submitWrites, hp] using hnil⟩
    | entered =>
      refine ⟨by simp [Device.starts, IrqPc.starts, hp], ?_⟩
      simp [Device.writes, hp, Foreign, rocketPcWritel, writel]
    | disabled =>
      refine ⟨by simp [Device.starts, IrqPc.starts, hp], ?_⟩
      simp [Device.writes, hp, Foreign, interruptRegs, rocketPcWritel, writel]
    | _ =>
      exact ⟨by simp [Device.starts, IrqPc.starts, hp], by simpa [Device.writes, hp] using hnil⟩
  | _ => exact ⟨rfl, hnil⟩

theorem Machine.Ok.job {a : Act} {lost : RegFile} (hm : m.Ok jobs index tasks)
    (h : m.Step jobs index tasks (.job a, lost) m') : m'.Ok jobs index tasks := by
  obtain ⟨d, hd, rfl⟩ := Option.map_eq_some_iff.mp h
  simp only [Device.step, Device.job] at hd
  split_ifs at hd with hg
  obtain ⟨c, hc, rfl⟩ := Option.map_eq_some_iff.mp hd
  have hs : Job.Step jobs m.device.core a c := hc
  have hw := hm.wf.step hs
  have hr := hm.resumed.job hm.wf hs
  have hstep := hm.stepping.move hm.wf hs.move
  have hawake {j : ℕ} {p : SubmitPc} (hp : m.device.core.Submits j p) : m.device.awake = true :=
    hm.resumed.awake_of_submits hm.wf hp
  cases hs.move.progress with
  | @run fail job p p' e hp hmove =>
    have hirq := (hm.wf.locks.irq_outside (by simp [hp, RunPc.holds])).1
    have hstay := hmove.jobLock.2.2.1
    have hwrites : m.device.writes index tasks (.job (.run fail)) =
        submitWrites index (tasks job) job m.device.core p := by simp [Device.writes, hp]
    have hstarts : m.device.starts (.job (.run fail)) = p.starts job := by
      simp [Device.starts, RunPc.starts, hp]
    have hkept : m.device.loses ⟨{ e with run := .submit job p' }, m.device.awake ||
        resumes m.device.core (.run fail), m.device.others⟩ (.job (.run fail)) = false := by
      simp [Device.loses, hawake (.inl hp)]
    rw [hwrites, hstarts, hkept]
    refine hm.submits (.inl hp) hmove hw hr hstep rfl (fun j q hq => ?_) rfl
    rcases hq with hq | hq
    · exact ⟨(RunPc.submit.inj hq).1.symm, (RunPc.submit.inj hq).2.symm⟩
    · exact absurd (hstay.symm.trans hq) (IrqPc.ne_submit hirq j q)
  | @irq job p p' e hp hmove =>
    have hrun := hm.wf.locks.run_outside (.inl (by simp [hp, IrqPc.holds]))
    have hstay := hmove.jobLock.2.1
    have hwrites : m.device.writes index tasks (.job .irq) =
        submitWrites index (tasks job) job m.device.core p := by simp [Device.writes, hp]
    have hstarts : m.device.starts (.job .irq) = p.starts job := by
      simp [Device.starts, IrqPc.starts, hp]
    have hkept : m.device.loses ⟨{ e with irq := .submit job p' }, m.device.awake ||
        resumes m.device.core .irq, m.device.others⟩ (.job .irq) = false := by
      simp [Device.loses, hawake (.inr hp)]
    rw [hwrites, hstarts, hkept]
    refine hm.submits (.inr hp) hmove hw hr hstep rfl (fun j q hq => ?_) rfl
    rcases hq with hq | hq
    · exact absurd (hstay.symm.trans hq) (RunPc.ne_submit hrun j q)
    · exact ⟨(IrqPc.submit.inj hq).1.symm, (IrqPc.submit.inj hq).2.symm⟩
  | other hlog hhand hrun hirq =>
    obtain ⟨hstarts, hws⟩ := Device.outside index tasks hrun hirq
    rw [hstarts]
    exact hm.other hw hr hstep hlog hhand (lost_or_written lost hws hm.lost_idle)

/-- The core goes to sleep only with nothing owed, and so with no submission under way. -/
theorem Machine.Ok.suspend {devfreq : Option Errno} {off : Bool} (hm : m.Ok jobs index tasks)
    (h : m.device.Step jobs (.suspend devfreq off) d) :
    (∀ j p, ¬ m.device.core.Submits j p) ∧ Wf jobs d.core ∧ Resumed d ∧ Stepping jobs d.core ∧
      (∀ j, d.core.startedTasks j = m.device.core.startedTasks j) ∧
      ∀ j p, p.task.isSome → d.core.Submits j p → m.device.core.Submits j p := by
  unfold Device.Step at h
  simp only [Device.step] at h
  split_ifs at h with hg
  have husage := hm.resumed.usage
  have howed : ¬ 0 < m.device.core.owed := by omega
  refine ⟨fun j p hsub => howed (hm.wf.owed_of_submit hsub), ?_⟩
  have hsame : Wf jobs m.device.core ∧ Resumed m.device ∧ Stepping jobs m.device.core :=
    ⟨hm.wf, hm.resumed, hm.stepping⟩
  unfold rocketDeviceRuntimeSuspend at h
  by_cases hidle : rocketJobIsIdle m.device.core = true
  · rw [if_pos hidle] at h
    cases devfreq with
    | some e =>
      cases h
      exact ⟨hm.wf, hm.resumed, hm.stepping, fun _ => rfl, fun _ _ _ h => h⟩
    | none =>
      cases h
      cases off
      · exact ⟨hm.wf, ⟨husage, fun ho => absurd ho howed⟩, hm.stepping, fun _ => rfl,
          fun _ _ _ h => h⟩
      · exact ⟨hm.wf.powerOff, ⟨husage, fun ho => absurd ho howed⟩, { hm.stepping with },
          fun _ => rfl, fun _ _ _ h => h⟩
  · rw [if_neg hidle] at h
    cases h
    exact ⟨hm.wf, hm.resumed, hm.stepping, fun _ => rfl, fun _ _ _ h => h⟩

theorem Machine.Ok.step {e : PmEvent × RegFile} (hm : m.Ok jobs index tasks)
    (h : m.Step jobs index tasks e m') : m'.Ok jobs index tasks := by
  obtain ⟨e, lost⟩ := e
  have hnil : Foreign [] := fun x hx => by cases hx
  -- a core that sleeps has no submission under way
  have hasleep (hl : (!m.device.awake) = true) (j : ℕ) (p : SubmitPc) :
      ¬ m.device.core.Submits j p := by
    intro hsub
    simp [hm.resumed.awake_of_submits hm.wf hsub] at hl
  have hsame {e : PmEvent} {d : Device} (hw : Foreign (m.device.writes index tasks e))
      (hl : m.device.loses d e = true → (!m.device.awake) = true) :=
    lost_or_written lost hw fun h => hasleep (hl h)
  cases e with
  | job a => exact hm.job h
  | handler raw =>
    obtain ⟨d, hd, rfl⟩ := Option.map_eq_some_iff.mp h
    cases hd
    by_cases hraw : (if m.device.awake then m.device.core.rawStatus else raw) = true
    · have hws : Foreign (m.device.writes index tasks (.handler raw)) := by
        simp [Device.writes, hraw, Foreign, interruptRegs, rocketPcWritel, writel]
      have hd : rocketJobIrqHandlerShared raw m.device = { m.device with
          core := { m.device.core with intMask := false, woken := true } } := if_pos hraw
      rw [hd]
      exact hm.other (d := { m.device with
          core := { m.device.core with intMask := false, woken := true } })
        (hm.wf.wake true) { hm.resumed with } { hm.stepping with } (fun _ => rfl)
        (fun _ _ _ h => h) (hsame hws id)
    · have hws : Foreign (m.device.writes index tasks (.handler raw)) := by
        simpa [Device.writes, hraw] using hnil
      have hd : rocketJobIrqHandlerShared raw m.device = m.device := if_neg hraw
      rw [hd]
      exact hm.other hm.wf hm.resumed hm.stepping (fun _ => rfl) (fun _ _ _ h => h)
        (hsame hws id)
  | get =>
    obtain ⟨d, hd, rfl⟩ := Option.map_eq_some_iff.mp h
    cases hd
    exact hm.other (d := { m.device with others := m.device.others + 1 }) hm.wf
      { hm.resumed with } hm.stepping (fun _ => rfl) (fun _ _ _ h => h)
      (hsame (e := .get) hnil id)
  | put =>
    obtain ⟨d, hd, rfl⟩ := Option.map_eq_some_iff.mp h
    simp only [Device.step] at hd
    split_ifs at hd
    cases hd
    exact hm.other (d := { m.device with others := m.device.others - 1 }) hm.wf
      { hm.resumed with } hm.stepping (fun _ => rfl) (fun _ _ _ h => h)
      (hsame (e := .put) hnil id)
  | suspend devfreq off =>
    obtain ⟨d, hd, rfl⟩ := Option.map_eq_some_iff.mp h
    obtain ⟨hidle, hw, hr, hstep, hlog, hsub⟩ := hm.suspend hd
    exact hm.other hw hr hstep hlog hsub (.inl hidle)
  | resume clocks =>
    obtain ⟨d, hd, rfl⟩ := Option.map_eq_some_iff.mp h
    cases clocks with
    | some err =>
      cases hd
      exact hm.other hm.wf hm.resumed hm.stepping (fun _ => rfl) (fun _ _ _ h => h)
        (hsame (e := .resume (some err)) hnil id)
    | none =>
      cases hd
      exact hm.other (d := { m.device with awake := true }) hm.wf
        ⟨hm.resumed.usage, fun _ => rfl⟩ hm.stepping (fun _ => rfl) (fun _ _ _ h => h)
        (hsame (e := .resume none) hnil id)

theorem Machine.ok_of_reachable
    (h : Reachable Machine.Start (Machine.Step jobs index tasks) m) : m.Ok jobs index tasks :=
  h.invariant (fun _ hs => hs.ok) fun _ _ _ hm hs => hm.step hs

/-- The registers name the command stream of a task, and its length. -/
structure Decodes (task : Task) (regs : RegFile) : Prop where
  sourceAddr : (pcBaseAddressPcSourceAddr.decode (regs (.pc, regPcBaseAddress))).toNat * 16 =
    task.regcmd.toNat
  sel : pcBaseAddressPcSel.decode (regs (.pc, regPcBaseAddress)) = 0 ∧
    pcBaseAddressReserved0.decode (regs (.pc, regPcBaseAddress)) = 0
  amount : (pcRegisterAmountsPcDataAmount.decode
    (regs (.pc, regPcRegisterAmounts))).toNat + 1 = (task.regcmdCount.toNat + 1) / 2

theorem decodes_iff {task : Task} {regs : RegFile}
    (h : Holds interruptRegs (cells (program index task)) regs) (hc : task.regcmdCount ≠ 0) :
    Decodes task regs ↔ task.regcmd.toNat < 4294967296 ∧ task.regcmd.toNat % 16 = 0 ∧
      task.regcmdCount.toNat ≤ 131072 := by
  have hbase : regs (.pc, regPcBaseAddress) = task.regcmd.setWidth 32 :=
    h _ (by simp [interruptRegs, regPcBaseAddress, regPcInterruptMask, regPcInterruptClear]) _ rfl
  have hamount : regs (.pc, regPcRegisterAmounts) =
      pcRegisterAmountsPcDataAmount.encode ((task.regcmdCount + 1) / 2 - 1) := by
    rw [← BitVec.setWidth_eq (pcRegisterAmountsPcDataAmount.encode _)]
    exact h _ (by simp [interruptRegs, regPcRegisterAmounts, regPcInterruptMask,
      regPcInterruptClear]) _ rfl
  constructor
  · intro hd
    have haddr := hd.sourceAddr
    have hcount := hd.amount
    rw [hbase, sourceAddr_iff] at haddr
    rw [hamount, amount_iff hc] at hcount
    exact ⟨haddr.1, haddr.2, hcount⟩
  · rintro ⟨hlt, halign, hle⟩
    refine ⟨?_, ?_, ?_⟩
    · rw [hbase]
      exact (sourceAddr_iff _).mpr ⟨hlt, halign⟩
    · rw [hbase]
      exact sel_of_aligned halign
    · rw [hamount]
      exact (amount_iff hc).mpr hle

/-- The tasks of a job are those of its descriptor, from where the user put them. -/
theorem copyTask_of_copied {env : SubmitEnv} {desc : JobDesc} {count : ℕ} {copied : ℕ → Task}
    (hcopy : copyTasks env desc = .ok ((List.range count).map copied))
    (hstride : (desc.taskCount.toNat - 1) * desc.taskStructSize.toNat < 4294967296) :
    count = desc.taskCount.toNat ∧ ∀ i < count, (copied i).regcmdCount ≠ 0 ∧
      env.task i (elementAddress desc.tasks i desc.taskStructSize) = some (copied i) := by
  have hsome := congrArg Except.toOption hcopy
  rw [copyTasks, toOption_mapM] at hsome
  have hmap := map_of_mapM_eq_some hsome
  have hcount : count = desc.taskCount.toNat := by simpa using (congrArg List.length hmap).symm
  refine ⟨hcount, fun i hi => ?_⟩
  have hget := congrArg (·[i]?) hmap
  have hok : (copyTask env desc i).toOption = some (copied i) := by
    simpa [List.getElem?_map, List.getElem?_range, hi, ← hcount] using hget
  have haddr := (userElements_eq_iff desc.tasks desc.taskCount desc.taskStructSize).mpr hstride i
    (hcount ▸ hi)
  rw [copyTask, haddr] at hok
  unfold copyTaskAt at hok
  cases ht : env.task i (elementAddress desc.tasks i desc.taskStructSize) with
  | none => simp [ht, Except.toOption] at hok
  | some task =>
    rw [ht] at hok
    dsimp only at hok
    split_ifs at hok with h0
    · cases hok
    · obtain rfl : task = copied i := Option.some.inj hok
      exact ⟨h0, rfl⟩

/-- What the hardware is started with for a job is, one after the other, the tasks that the user's
array holds; each is named by the registers exactly if its address and length fit them. -/
theorem starts_submitted (h : Reachable Machine.Start (Machine.Step jobs index tasks) m)
    {job : ℕ} {env : SubmitEnv} {desc : JobDesc}
    (hcopy : copyTasks env desc = .ok ((List.range (jobs.taskCount job)).map (tasks job)))
    (hstride : (desc.taskCount.toNat - 1) * desc.taskStructSize.toNat < 4294967296) :
    (m.programs job).length ≤ desc.taskCount.toNat ∧
      ∀ i regs, (m.programs job)[i]? = some regs →
        ∃ task, env.task i (elementAddress desc.tasks i desc.taskStructSize) = some task ∧
          Holds interruptRegs (cells (program index task)) regs ∧
          (Decodes task regs ↔ task.regcmd.toNat < 4294967296 ∧ task.regcmd.toNat % 16 = 0 ∧
            task.regcmdCount.toNat ≤ 131072) := by
  have hm := Machine.ok_of_reachable h
  obtain ⟨hcount, hread⟩ := copyTask_of_copied hcopy hstride
  obtain ⟨n, hn, hstarted⟩ : ∃ n ≤ jobs.taskCount job,
      m.device.core.startedTasks job = List.range n :=
    ⟨_, Nat.le_trans (Nat.sub_le _ _) (hm.stepping.bound job), hm.stepping.started job⟩
  have hall := hm.programs job
  rw [hstarted] at hall
  have hlen : n = (m.programs job).length := by simpa using hall.length_eq
  refine ⟨by omega, fun i regs hi => ?_⟩
  obtain ⟨hlt, hget⟩ := List.getElem?_eq_some_iff.mp hi
  have hin : i < n := hlen ▸ hlt
  have hholds : Holds interruptRegs (cells (program index (tasks job i))) regs := by
    have hat := hall.get (i := i) (by simpa using hin) hlt
    simpa [hget] using hat
  obtain ⟨hc, htask⟩ := hread i (by omega)
  exact ⟨tasks job i, htask, hholds, decodes_iff hholds hc⟩

/-- Two tasks in user memory, 32 bytes apart. -/
def strided (address : BitVec 64) : Option Task :=
  if address = 0x1000 then some ⟨0x10000, 8⟩
  else if address = 0x1020 then some ⟨0x20000, 6⟩ else none

def stridedEnv : SubmitEnv := { SubmitEnv.smooth with task := fun _ => strided }

def stridedDesc : JobDesc := { JobDesc.oneTask with taskCount := 2, taskStructSize := 32 }

def stridedTasks (_ i : ℕ) : Task := if i = 0 then ⟨0x10000, 8⟩ else ⟨0x20000, 6⟩

/-- Up to the start of the second task, which the IRQ thread submits. -/
def startBoth : List PmEvent :=
  startJob.map .job ++ [.job .complete, .handler false, .job (.irqThread false)] ++
    List.replicate 10 (.job .irq)

/-- Both tasks reach the registers of core 2, one after the other. -/
theorem starts_submitted_strided : ∃ m regs regs',
    Reachable Machine.Start (Machine.Step twoTasks 2 stridedTasks) m ∧
      m.programs 0 = [regs, regs'] ∧ Decodes ⟨0x10000, 8⟩ regs ∧ Decodes ⟨0x20000, 6⟩ regs' := by
  let start : Machine := ⟨probed, fun _ => 0, []⟩
  have h0 : Reachable Machine.Start (Machine.Step twoTasks 2 stridedTasks) start :=
    .start ⟨rfl, rfl⟩
  have hend : ((startBoth.map fun e => (e, start.regs)).foldlM
      (Machine.step twoTasks 2 stridedTasks) start).map (fun m => (m.programs 0).length) =
      some 2 := rfl
  obtain ⟨m, hm, hlen⟩ := Option.map_eq_some_iff.mp hend
  have hreach := h0.foldlM (fun _ _ _ h => h) hm
  obtain ⟨regs, regs', hregs⟩ := List.length_eq_two.mp hlen
  have hcopy : copyTasks stridedEnv stridedDesc =
      .ok ((List.range (twoTasks.taskCount 0)).map (stridedTasks 0)) := rfl
  obtain ⟨-, hall⟩ := starts_submitted hreach hcopy (by decide)
  obtain ⟨task, htask, -, hfirst⟩ := hall 0 regs (by simp [hregs])
  obtain rfl : ⟨0x10000, 8⟩ = task := Option.some.inj htask
  obtain ⟨task, htask, -, hsecond⟩ := hall 1 regs' (by simp [hregs])
  obtain rfl : ⟨0x20000, 6⟩ = task := Option.some.inj htask
  exact ⟨m, regs, regs', hreach, hregs, hfirst.mpr (by decide), hsecond.mpr (by decide)⟩

end RocketNpu.Job
