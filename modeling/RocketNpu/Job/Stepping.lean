import RocketNpu.Job.Group
import RocketNpu.Job.Usage

namespace RocketNpu.Job
open Runs

variable {jobs : Jobs} {c c' : Core}

/-- The task of job `j` an event starts. -/
def Event.startedOf (j : ℕ) : Event → Option ℕ
  | .started job k => if job = j then some k else none
  | _ => none

/-- The tasks of job `j` that reached the hardware, in this order. -/
def Core.startedTasks (c : Core) (j : ℕ) : List ℕ := (c.log.filterMap (Event.startedOf j)).reverse

/-- How many tasks a submission has taken and not started. -/
def SubmitPc.inHand : SubmitPc → ℕ
  | .intMask _ | .intClear _ | .operationEnable _ => 1
  | .check | .fin => 0

def RunPc.inHand (j : ℕ) : RunPc → ℕ
  | .submit job p => if job = j then p.inHand else 0
  | _ => 0

def IrqPc.inHand (j : ℕ) : IrqPc → ℕ
  | .submit job p => if job = j then p.inHand else 0
  | _ => 0

theorem RunPc.inHand_of_outside {r : RunPc} (h : r.holds = false) (j : ℕ) : r.inHand j = 0 := by
  cases r <;> simp [RunPc.holds, RunPc.inHand] at h ⊢

theorem IrqPc.inHand_of_outside {r : IrqPc} (h : r.holds = false) (j : ℕ) : r.inHand j = 0 := by
  cases r <;> simp [IrqPc.holds, IrqPc.inHand] at h ⊢

/-- The tasks of every job are started in order, and `next_task_idx` counts them together
with the one in hand. -/
structure Stepping (jobs : Jobs) (c : Core) : Prop where
  bound : ∀ j, c.nextTaskIdx j ≤ jobs.taskCount j
  started : ∀ j, c.startedTasks j =
    List.range (c.nextTaskIdx j - (c.run.inHand j + c.irq.inHand j))

theorem Core.startedTasks_cons (c : Core) (j job k : ℕ) (exec : Option (ℕ × ℕ)) :
    Core.startedTasks { c with exec := exec, log := .started job k :: c.log } j =
      if job = j then c.startedTasks j ++ [k] else c.startedTasks j := by
  unfold Core.startedTasks
  by_cases h : job = j
  · simp [Event.startedOf, h]
  · simp [Event.startedOf, h]

/-- What one step of a submission does to the count of its job, and to no other. -/
theorem SubmitMove.started {job : ℕ} {p p' : SubmitPc} {d : Core} (h : SubmitMove job c p p' d)
    (hk : ∀ k, p.task = some k → c.nextTaskIdx job = k + 1) {j : ℕ}
    (hi : c.startedTasks j =
      List.range (c.nextTaskIdx j - if job = j then p.inHand else 0)) :
    d.startedTasks j = List.range (d.nextTaskIdx j - if job = j then p'.inHand else 0) := by
  cases h
  case skip => simpa [SubmitPc.inHand] using hi
  case take =>
    by_cases hj : job = j
    · subst hj
      simpa [SubmitPc.inHand, Core.startedTasks] using hi
    · simpa [SubmitPc.inHand, Core.startedTasks, hj, Ne.symm hj] using hi
  case mask k => simpa [SubmitPc.inHand, Core.startedTasks] using hi
  case clear k => simpa [SubmitPc.inHand, Core.startedTasks] using hi
  case enable k =>
    rw [Core.startedTasks_cons]
    by_cases hj : job = j
    · subst hj
      have hn : c.nextTaskIdx job = k + 1 := hk k rfl
      simp only [if_true, SubmitPc.inHand, hn, Nat.add_sub_cancel] at hi ⊢
      rw [hi, Nat.sub_zero, List.range_succ]
    · simpa [hj] using hi

theorem SubmitMove.bound {job : ℕ} {p p' : SubmitPc} {d : Core} (h : SubmitMove job c p p' d)
    (hcheck : p = .check → c.nextTaskIdx job < jobs.taskCount job)
    (hb : ∀ j, c.nextTaskIdx j ≤ jobs.taskCount j) (j : ℕ) :
    d.nextTaskIdx j ≤ jobs.taskCount j := by
  cases h
  case take =>
    by_cases hj : j = job
    · subst hj
      simpa using Nat.succ_le_of_lt (hcheck rfl)
    · simpa [hj] using hb j
  all_goals exact hb j

theorem Stepping.init : Stepping jobs Core.init :=
  ⟨fun _ => Nat.zero_le _, fun _ => rfl⟩

theorem Stepping.runSubmit {job : ℕ} {p p' : SubmitPc} {d : Core} (hw : Wf jobs c)
    (hs : Stepping jobs c) (hp : c.run = .submit job p) (h : SubmitMove job c p p' d) :
    Stepping jobs { d with run := .submit job p' } := by
  obtain ⟨-, hcheck, htask⟩ := hw.sched.runSubmit job p hp
  have hirq := (hw.locks.irq_outside (by simp [hp, RunPc.holds])).1
  refine ⟨h.bound (fun he => ?_) hs.bound, fun j => ?_⟩
  · rw [(hcheck he).1]
    exact (hcheck he).2
  · have hi := hs.started j
    simp only [hp, RunPc.inHand, IrqPc.inHand_of_outside hirq, Nat.add_zero] at hi
    have hd := h.started (fun k hk => by obtain ⟨rfl, hn, -⟩ := htask k hk; exact hn) hi
    have hirq' : d.irq.inHand j = 0 := by
      rw [h.jobLock.2.2.1]
      exact IrqPc.inHand_of_outside hirq j
    simpa only [Core.startedTasks, RunPc.inHand, hirq', Nat.add_zero] using hd

theorem Stepping.irqSubmit {job : ℕ} {p p' : SubmitPc} {d : Core} (hw : Wf jobs c)
    (hs : Stepping jobs c) (hp : c.irq = .submit job p) (h : SubmitMove job c p p' d) :
    Stepping jobs { d with irq := .submit job p' } := by
  obtain ⟨-, hcheck, htask⟩ := hw.sched.irqSubmit job p hp
  have hrun := hw.locks.run_outside (.inl (by simp [hp, IrqPc.holds]))
  refine ⟨h.bound hcheck hs.bound, fun j => ?_⟩
  have hi := hs.started j
  simp only [hp, IrqPc.inHand, RunPc.inHand_of_outside hrun, Nat.zero_add] at hi
  have hd := h.started (fun k hk => (htask k hk).1) hi
  have hrun' : d.run.inHand j = 0 := by
    rw [h.jobLock.2.1]
    exact RunPc.inHand_of_outside hrun j
  simpa only [Core.startedTasks, IrqPc.inHand, hrun', Nat.zero_add] using hd

theorem Stepping.move {a : Act} (hw : Wf jobs c) (hs : Stepping jobs c)
    (h : Move jobs c a c') : Stepping jobs c' := by
  obtain ⟨hb, hi⟩ := hs
  cases h
  case runSubmit hp hm => exact Stepping.runSubmit hw ⟨hb, hi⟩ hp hm
  case irqSubmit hp hm => exact Stepping.irqSubmit hw ⟨hb, hi⟩ hp hm
  case signalled hp =>
    refine ⟨hb, fun j => ?_⟩
    simp only [Core.startedTasks]
    rw [List.filterMap_cons_none rfl]
    simpa [Core.startedTasks, IrqPc.inHand, hp] using hi j
  case completed =>
    refine ⟨hb, fun j => ?_⟩
    simp only [Core.startedTasks]
    rw [List.filterMap_cons_none rfl]
    exact hi j
  all_goals
    refine ⟨hb, fun j => ?_⟩
    simpa [Core.startedTasks, RunPc.inHand, IrqPc.inHand, SubmitPc.inHand, *] using hi j

/-- A job whose fence was signalled is on its way out of flight, and is not started again. -/
structure SignalledOnce (c : Core) : Prop where
  count : ∀ j, c.log.count (.signalled j) ≤ 1
  out : ∀ j, .signalled j ∈ c.log →
    (c.inFlightJob = some j → c.irq = .signalled j) ∧ c.run.starting ≠ some j ∧ c.taken j = true

theorem SignalledOnce.init : SignalledOnce Core.init := by
  constructor <;> simp [Core.init]

/-- Steps that leave the signalled events alone. -/
theorem SignalledOnce.of_log (hs : SignalledOnce c)
    (hlog : ∀ j, c'.log.count (.signalled j) = c.log.count (.signalled j))
    (hout : ∀ j, .signalled j ∈ c.log →
      (c'.inFlightJob = some j → c'.irq = .signalled j) ∧ c'.run.starting ≠ some j ∧
        c'.taken j = true) : SignalledOnce c' := by
  refine ⟨fun j => hlog j ▸ hs.count j, fun j hj => hout j ?_⟩
  rw [← List.count_pos_iff] at hj ⊢
  rwa [← hlog j]

theorem SubmitMove.signals {job : ℕ} {p p' : SubmitPc} {d : Core} (h : SubmitMove job c p p' d) :
    (∀ j, d.log.count (.signalled j) = c.log.count (.signalled j)) ∧
      d.inFlightJob = c.inFlightJob ∧ d.taken = c.taken := by
  cases h <;> simp

/-- A job that was not signalled yet is, by the IRQ thread that has it in flight. -/
theorem SignalledOnce.signalled {job : ℕ} (hw : Wf jobs c) (hs : SignalledOnce c)
    (hp : c.irq = .detached job) : SignalledOnce { c with
      current := if c.current = some job then none else c.current
      log := .signalled job :: c.log
      irq := .signalled job } := by
  have hf := (hw.sched.closing job (by simp [hp, IrqPc.closing])).1
  have hnew : .signalled job ∉ c.log := by
    intro hj
    have hirq := (hs.out job hj).1 hf
    rw [hp] at hirq
    cases hirq
  refine ⟨fun j => ?_, fun j hj => ?_⟩
  · by_cases hjob : job = j
    · subst hjob
      have hzero := List.count_eq_zero_of_not_mem hnew
      have hcons : (Event.signalled job :: c.log).count (.signalled job) =
          c.log.count (.signalled job) + 1 := List.count_cons_self
      change (Event.signalled job :: c.log).count (.signalled job) ≤ 1
      omega
    · rw [List.count_cons_of_ne (by simpa using hjob)]
      exact hs.count j
  · rcases List.mem_cons.mp hj with he | hj
    · cases he
      refine ⟨fun _ => rfl, fun hstart => ?_, hw.sched.takenFlight job hf⟩
      exact (hw.sched.starting job hstart).2.2.2 hf
    · obtain ⟨h1, h2, h3⟩ := hs.out j hj
      refine ⟨fun hflight => ?_, h2, h3⟩
      exact absurd (h1 hflight) (by simp [hp])

theorem SignalledOnce.run {fail : Bool} (hs : SignalledOnce c)
    (h : Move jobs c (.run fail) c') : SignalledOnce c' := by
  cases h
  case stored job hp =>
    refine hs.of_log (fun _ => rfl) fun j hj => ?_
    obtain ⟨-, h2, h3⟩ := hs.out j hj
    refine ⟨fun hf => ?_, by simp [RunPc.starting], h3⟩
    obtain rfl : job = j := Option.some.inj hf
    exact absurd (by simp [hp, RunPc.starting]) h2
  case runSubmit hp hm =>
    obtain ⟨hlog, hf, ht⟩ := hm.signals
    refine hs.of_log hlog fun j hj => ?_
    obtain ⟨h1, -, h3⟩ := hs.out j hj
    exact ⟨fun h => hm.jobLock.2.2.1.trans (h1 (hf ▸ h)), by simp [RunPc.starting], ht ▸ h3⟩
  all_goals
    refine hs.of_log (fun _ => rfl) fun j hj => ?_
    obtain ⟨h1, h2, h3⟩ := hs.out j hj
    refine ⟨h1, ?_, h3⟩
    simp_all [RunPc.starting]

theorem SignalledOnce.irq (hw : Wf jobs c) (hs : SignalledOnce c) (h : Move jobs c .irq c') :
    SignalledOnce c' := by
  cases h
  case signalled job hp => exact hs.signalled hw hp
  case irqSubmit job p p' d hp hm =>
    obtain ⟨hlog, hf, ht⟩ := hm.signals
    refine hs.of_log hlog fun j hj => ?_
    obtain ⟨h1, h2, h3⟩ := hs.out j hj
    refine ⟨fun h => absurd (h1 (hf ▸ h)) (by simp [hp]), ?_, ht ▸ h3⟩
    change d.run.starting ≠ some j
    rwa [hm.jobLock.2.1]
  case finished hp =>
    refine hs.of_log (fun _ => rfl) fun j hj => ?_
    exact ⟨by simp, (hs.out j hj).2⟩
  -- at no other point of the thread is a signalled job in flight
  all_goals
    refine hs.of_log (fun _ => rfl) fun j hj => ?_
    obtain ⟨h1, h2, h3⟩ := hs.out j hj
    exact ⟨fun hf => absurd (h1 hf) (by simp [*]), h2, h3⟩

theorem SignalledOnce.move {a : Act} (hw : Wf jobs c) (hs : SignalledOnce c)
    (h : Move jobs c a c') : SignalledOnce c' := by
  cases a with
  | schedule job fail =>
    cases h
    case dropped =>
      refine hs.of_log (fun _ => rfl) fun j hj => ?_
      obtain ⟨h1, h2, h3⟩ := hs.out j hj
      exact ⟨h1, h2, Sched.taken_mono h3 job⟩
    case scheduled hrun _ _ hnew _ =>
      refine hs.of_log (fun _ => rfl) fun j hj => ?_
      obtain ⟨h1, -, h3⟩ := hs.out j hj
      refine ⟨h1, ?_, Sched.taken_mono h3 job⟩
      rintro ⟨⟩
      rw [hnew] at h3
      cases h3
  | run fail => exact hs.run h
  | irq => exact hs.irq hw h
  | irqThread spurious =>
    cases h
    case entered hidle _ =>
      refine hs.of_log (fun _ => rfl) fun j hj => ?_
      obtain ⟨h1, h2, h3⟩ := hs.out j hj
      exact ⟨fun hf => absurd (h1 hf) (by simp [hidle]), h2, h3⟩
  | timeout job =>
    cases h
    exact hs.of_log (fun _ => rfl) hs.out
  | reset =>
    cases h
    case forgotten =>
      refine hs.of_log (fun _ => rfl) fun j hj => ?_
      exact ⟨by simp, (hs.out j hj).2⟩
    all_goals exact hs.of_log (fun _ => rfl) hs.out
  | hardIrq =>
    cases h
    exact hs.of_log (fun _ => rfl) hs.out
  | complete =>
    cases h
    exact hs.of_log (fun _ => by simp) hs.out

/-- Nothing is under way on a core that is down, and from `rocket_job_fini` on only its interrupt
is left. -/
structure Wound (d : CoreDev) : Prop where
  down : d.life = .down → d.core.irq = .idle
  late : d.life = .down ∨ d.life = .late → d.core.run = .idle ∧ d.core.reset = .idle

/-- What task stepping needs to be known of a core, bound or not. -/
structure Steady (jobs : Jobs) (d : CoreDev) : Prop where
  wf : Wf jobs d.core
  stepping : Stepping jobs d.core
  once : SignalledOnce d.core
  wound : Wound d

variable {d d' : CoreDev}

theorem Steady.load : Steady jobs .load where
  wf := ⟨⟨Locks.init.run, Locks.init.irq, Locks.init.reset⟩, { Sched.init with }⟩
  stepping := ⟨fun _ => Nat.zero_le _, fun _ => rfl⟩
  once := ⟨SignalledOnce.init.count, SignalledOnce.init.out⟩
  wound := ⟨fun _ => rfl, fun _ => ⟨rfl, rfl⟩⟩

/-- The references on the group are nothing to the tasks. -/
theorem Steady.refs (hs : Steady jobs d) {life : Life} (held : Bool) (refs : ℤ)
    (hdown : life = .down → d.life = .down) (hlate : life ≠ .late) :
    Steady jobs ⟨life, held, { d.core with groupRefs := refs }⟩ where
  wf := ⟨⟨hs.wf.locks.run, hs.wf.locks.irq, hs.wf.locks.reset⟩, { hs.wf.sched with }⟩
  stepping := ⟨hs.stepping.bound, hs.stepping.started⟩
  once := ⟨hs.once.count, hs.once.out⟩
  wound := ⟨fun h => hs.wound.down (hdown h), fun h => hs.wound.late (.inl (hdown
    (h.resolve_right hlate)))⟩

/-- A core that is bound with nothing in flight goes on with the tasks where its device left
off. -/
theorem Steady.fresh (hs : Steady jobs d) (hdown : d.life = .down) (refs : ℤ) {slot : Leftover}
    (hslot : slot.inFlightJob = none) : Steady jobs ⟨.up, true, d.core.fresh refs slot⟩ := by
  have hirq := hs.wound.down hdown
  obtain ⟨hrun, -⟩ := hs.wound.late (.inl hdown)
  refine ⟨⟨⟨Locks.init.run, Locks.init.irq, Locks.init.reset⟩, ?_⟩, ⟨hs.stepping.bound, ?_⟩,
    ⟨hs.once.count, ?_⟩, ⟨by simp, by simp⟩⟩
  · have hfresh := hs.wf.sched.fresh
    constructor <;> simp_all [Core.fresh, Core.init, ResetPc.stops, RunPc.starting, IrqPc.closing]
  · intro j
    have hstarted := hs.stepping.started j
    simp only [hrun, hirq, RunPc.inHand, IrqPc.inHand] at hstarted
    exact hstarted
  · intro j hj
    obtain ⟨-, -, htaken⟩ := hs.once.out j hj
    exact ⟨by simp [Core.fresh, hslot], by simp [Core.fresh, Core.init, RunPc.starting], htaken⟩

/-- The steps left to a core in `rocket_job_fini` are its interrupt's. -/
theorem Move.of_late {a : Act} (h : Move jobs c a c') (ha : Life.late.runs a = true) :
    c'.run = c.run ∧ c'.reset = c.reset := by
  cases h
  case irqSubmit hm => exact ⟨hm.jobLock.2.1, hm.jobLock.2.2.2⟩
  all_goals first
    | exact ⟨rfl, rfl⟩
    | simp [Life.runs] at ha

theorem Wound.job {a : Act} (hw : Wound d) (hruns : d.life.runs a = true)
    (h : Move jobs d.core a c') : Wound { d with core := c' } := by
  refine ⟨fun hdown => ?_, fun hlate => ?_⟩
  · change d.life = .down at hdown
    simp [hdown, Life.runs] at hruns
  · change d.life = .down ∨ d.life = .late at hlate
    obtain ⟨hrun, hreset⟩ := hw.late hlate
    rcases hlate with hdown | hlate
    · simp [hdown, Life.runs] at hruns
    · rw [hlate] at hruns
      obtain ⟨h1, h2⟩ := h.of_late hruns
      exact ⟨h1.trans hrun, h2.trans hreset⟩

/-- The slot a core is bound in was left with nothing in flight. -/
def bindsEmpty : LifeAct → Bool
  | .init _ slot => slot.inFlightJob.isNone
  | _ => true

theorem Steady.step {a : LifeAct} (hs : Steady jobs d) (h : LifeStep jobs d a d')
    (hempty : bindsEmpty a = true) : Steady jobs d' := by
  unfold LifeStep at h
  cases a with
  | init env slot =>
    simp only [CoreDev.step] at h
    split_ifs at h with hdown
    split at h
    · cases h
      exact hs.refs _ _ (fun _ => hdown) (by simp)
    · next g hg =>
      cases h
      have hslot : slot.inFlightJob = none := by simpa [bindsEmpty] using hempty
      have hfresh := hs.fresh hdown g.refs hslot
      exact ⟨hfresh.wf, hfresh.stepping, hfresh.once, ⟨by simp, by simp⟩⟩
  | job a =>
    simp only [CoreDev.step] at h
    split_ifs at h with hruns
    obtain ⟨c, hc, rfl⟩ := Option.map_eq_some_iff.mp h
    have hmove : Move jobs d.core a c := Step.move hc
    exact ⟨hs.wf.step hc, hs.stepping.move hs.wf hmove, hs.once.move hs.wf hmove,
      hs.wound.job hruns hmove⟩
  | finiGroup =>
    simp only [CoreDev.step] at h
    split_ifs at h
    cases h
    exact hs.refs _ _ (by simp) (by simp)
  | finiJob =>
    simp only [CoreDev.step] at h
    split_ifs at h with hl
    cases h
    exact ⟨hs.wf, hs.stepping, hs.once, ⟨by simp, fun _ => hl.2⟩⟩
  | release =>
    simp only [CoreDev.step] at h
    split_ifs at h with hl
    cases h
    exact ⟨hs.wf, hs.stepping, hs.once, ⟨fun _ => hl.2, fun _ => hs.wound.late (.inr hl.1)⟩⟩

/-- What task stepping keeps to on every core: `in_flight_job` is stored over NULL, no task
beyond the last is indexed, the tasks of a job that reach the hardware are a prefix of its
list, and a fence is signalled once. -/
structure StepsTasks (jobs : Jobs) (c : Core) : Prop where
  stored : ∀ j, c.run = .locked j → c.inFlightJob = none
  indexed : ∀ j, c.run = .submit j .check ∨ c.irq = .submit j .check →
    c.nextTaskIdx j < jobs.taskCount j
  started : ∀ j, ∃ m ≤ jobs.taskCount j, c.startedTasks j = List.range m
  signalled : ∀ j, c.log.count (.signalled j) ≤ 1

theorem Steady.stepsTasks (hs : Steady jobs d) : StepsTasks jobs d.core := by
  obtain ⟨hw, hstep, honce, -⟩ := hs
  refine ⟨fun j hj => hw.flight_free hj, fun j hj => ?_, fun j => ?_, honce.count⟩
  · rcases hj with hj | hj
    · have hcheck := (hw.sched.runSubmit j .check hj).2.1 rfl
      omega
    · exact (hw.sched.irqSubmit j .check hj).2.1 rfl
  · refine ⟨_, ?_, hstep.started j⟩
    exact Nat.le_trans (Nat.sub_le _ _) (hstep.bound j)

/-- In every run in which a core is only bound with nothing in flight, it steps through the tasks
of its jobs as it should, over all its bindings. -/
theorem stepsTasks_of_bindsEmpty
    (h : Reachable (· = CoreDev.load) (restrict (LifeStep jobs) fun _ a => bindsEmpty a) d) :
    StepsTasks jobs d.core := by
  suffices hs : Steady jobs d from hs.stepsTasks
  refine h.invariant ?_ fun d a d' hs hstep => hs.step hstep.1 hstep.2
  rintro d rfl
  exact .load

/-- A job up to the point where `rocket_job_run` stores it. -/
def thirdJob : List LifeAct :=
  (Act.schedule 2 false :: List.replicate 3 (.run false)).map LifeAct.job

/-- A core is unbound after a thread that came late, bound again, and given a third job. -/
def boundAgain : List LifeAct :=
  wholeLife (lateThread ++ List.replicate 2 .irq) ++ LifeAct.init .smooth .clean :: thirdJob

theorem stepsTasks_boundAgain :
    ∃ d, boundAgain.foldlM (fun d a => if bindsEmpty a then d.step oneTask a else none)
        CoreDev.load = some d ∧
      d.core.run = .locked 2 ∧ StepsTasks oneTask d.core := by
  have h0 : Reachable (· = CoreDev.load)
      (restrict (LifeStep oneTask) fun _ a => bindsEmpty a) CoreDev.load := .start rfl
  have hend : (boundAgain.foldlM (fun d a => if bindsEmpty a then d.step oneTask a else none)
      CoreDev.load).map (fun d => d.core.run) = some (.locked 2) := rfl
  obtain ⟨d, hd, hrun⟩ := Option.map_eq_some_iff.mp hend
  refine ⟨d, hd, hrun, stepsTasks_of_bindsEmpty (h0.foldlM (fun d a d' h => ?_) hd)⟩
  split_ifs at h with ha
  exact ⟨h, ha⟩

/-- One core is unbound with its job in flight. Another one, which was unbound idle, is bound in
the slot the first one left, and is given a job. -/
theorem not_stepsTasks : ∃ a b b₁ b₂ : CoreDev,
    Reachable (· = CoreDev.load) (LifeStep oneTask) a ∧ a.life = .down ∧
      Reachable (· = CoreDev.load) (LifeStep oneTask) b ∧ b.life = .down ∧ b.leaves = .clean ∧
      LifeStep oneTask b (.init .smooth a.leaves) b₁ ∧
      Reachable (· = b₁) (LifeStep oneTask) b₂ ∧ b₂.core.run = .locked 2 ∧
      b₂.core.inFlightJob = some 0 ∧ ¬ StepsTasks oneTask b₂.core := by
  have h0 : Reachable (· = CoreDev.load) (LifeStep oneTask) CoreDev.load := .start rfl
  have hfirst : ((wholeLife startJob).foldlM (CoreDev.step oneTask) CoreDev.load).map
      (fun a => (a.life, a.leaves)) = some (.down, ⟨some 0, false, true⟩) := rfl
  obtain ⟨a, ha, hfields⟩ := Option.map_eq_some_iff.mp hfirst
  obtain ⟨hdown, hleaves⟩ := Prod.mk.inj hfields
  have hsecond : ((wholeLife []).foldlM (CoreDev.step oneTask) CoreDev.load).bind (fun b =>
      (b.step oneTask (.init .smooth ⟨some 0, false, true⟩)).bind fun b₁ =>
        (thirdJob.foldlM (CoreDev.step oneTask) b₁).map fun b₂ =>
          (b.life, b.leaves, b₂.core.run, b₂.core.inFlightJob)) =
      some (.down, .clean, .locked 2, some 0) := rfl
  obtain ⟨b, hb, hsecond⟩ := Option.bind_eq_some_iff.mp hsecond
  obtain ⟨b₁, hb₁, hsecond⟩ := Option.bind_eq_some_iff.mp hsecond
  obtain ⟨b₂, hb₂, hfields⟩ := Option.map_eq_some_iff.mp hsecond
  simp only [Prod.mk.injEq] at hfields
  obtain ⟨hdown', hclean, hrun, hflight⟩ := hfields
  have hbound : Reachable (· = b₁) (LifeStep oneTask) b₁ := .start rfl
  refine ⟨a, b, b₁, b₂, h0.foldlM (fun _ _ _ h => h) ha, hdown, h0.foldlM (fun _ _ _ h => h) hb,
    hdown', hclean, hleaves ▸ hb₁, hbound.foldlM (fun _ _ _ h => h) hb₂, hrun, hflight, fun h => ?_⟩
  have hnone := h.stored 2 hrun
  rw [hflight] at hnone
  cases hnone

end RocketNpu.Job
