import RocketNpu.Errno
import RocketNpu.Job.Completion

namespace RocketNpu.Job
open Runs

/-- What `rocket_core_init` depends on outside: each step may fail. -/
structure CoreInitEnv where
  resets : Option Errno
  clks : Option Errno
  pcIomem : Option Errno
  cnaIomem : Option Errno
  coreIomem : Option Errno
  dmaMask : Option Errno
  irq : Option Errno
  requestIrq : Option Errno
  wq : Option Errno
  schedInit : Option Errno
  resume : Option Errno

/-- An environment in which no step fails. -/
def CoreInitEnv.smooth : CoreInitEnv :=
  ⟨none, none, none, none, none, none, none, none, none, none, none⟩

/-- `core->iommu_group` is not NULL, and the references held on the group. -/
structure GroupRefs where
  held : Bool
  refs : ℤ

def iommuGroupGet (g : GroupRefs) : GroupRefs := ⟨true, g.refs + 1⟩

/-- `iommu_group_put`, which lets NULL pass, and the NULL that is stored then. -/
def iommuGroupPut (g : GroupRefs) : GroupRefs := ⟨false, if g.held then g.refs - 1 else g.refs⟩

def rocketJobInit (env : CoreInitEnv) : Option Errno :=
  env.irq <|> env.requestIrq <|> env.wq <|> env.schedInit

/-- The part of `rocket_core_fini` before `rocket_job_fini`. -/
def rocketCoreFini (g : GroupRefs) : GroupRefs := iommuGroupPut g

def rocketCoreInit (env : CoreInitEnv) (g : GroupRefs) : Option Errno × GroupRefs :=
  match env.resets <|> env.clks <|> env.pcIomem <|> env.cnaIomem <|> env.coreIomem <|>
      env.dmaMask with
  | some e => (some e, g)
  | none =>
    match rocketJobInit env with
    | some e => (some e, iommuGroupPut (iommuGroupGet g))
    | none =>
      match env.resume with
      | some e => (some e, rocketCoreFini (iommuGroupGet g))
      | none => (none, iommuGroupGet g)

/-- Where a core is in its life. `rocket_core_fini` drops the group, waits in
`rocket_job_fini` for the scheduler, and leaves an interrupt that `devm` frees last. -/
inductive Life where
  | down | up | leaving | late
deriving DecidableEq, Repr

/-- The core of one device, over any number of bindings, each in any slot; jobs keep their
numbers. -/
structure CoreDev where
  life : Life
  /-- `core->iommu_group` is not NULL. -/
  iommuGroup : Bool
  core : Core

def CoreDev.load : CoreDev := ⟨.down, false, { Core.init with groupRefs := 0 }⟩

/-- What the last core in a slot left there, and `rocket_core_init` does not write. -/
structure Leftover where
  inFlightJob : Option ℕ
  resetPending : Bool
  busy : Bool
deriving DecidableEq, Repr

/-- A slot that was never used, or was left idle. -/
def Leftover.clean : Leftover := ⟨none, false, false⟩

inductive LifeAct where
  | init (env : CoreInitEnv) (slot : Leftover)
  | job (a : Act)
  | finiGroup
  | finiJob
  | release

/-- What a core leaves in its slot. -/
def CoreDev.leaves (d : CoreDev) : Leftover :=
  ⟨d.core.inFlightJob, d.core.resetPending, d.core.busy⟩

/-- Which threads still run. -/
def Life.runs : Life → Act → Bool
  | .down, _ => false
  | .up, _ | .leaving, _ => true
  | .late, .irqThread _ | .late, .irq | .late, .hardIrq | .late, .complete => true
  | .late, _ => false

/-- A core that was just initialised. The device keeps its domain, its usage count and what its
hardware was at: nothing detaches the group or stops the hardware when a core goes. -/
def Core.fresh (refs : ℤ) (slot : Leftover) (c : Core) : Core :=
  { Core.init with
    inFlightJob := slot.inFlightJob
    resetPending := slot.resetPending
    group := c.group
    groupRefs := refs
    usage := c.usage
    busy := slot.busy
    exec := c.exec
    rawStatus := c.rawStatus
    intMask := c.intMask
    taken := c.taken
    nextTaskIdx := c.nextTaskIdx
    log := c.log }

def CoreDev.step (jobs : Jobs) (d : CoreDev) : LifeAct → Option CoreDev
  | .init env slot =>
    if d.life = .down then
      match rocketCoreInit env ⟨d.iommuGroup, d.core.groupRefs⟩ with
      | (some _, g) => some ⟨.down, g.held, { d.core with groupRefs := g.refs }⟩
      | (none, g) => some ⟨.up, g.held, d.core.fresh g.refs slot⟩
    else none
  | .job a =>
    if d.life.runs a then (d.core.step jobs a).map fun c => { d with core := c } else none
  | .finiGroup =>
    if d.life = .up then
      let g := rocketCoreFini ⟨d.iommuGroup, d.core.groupRefs⟩
      some ⟨.leaving, g.held, { d.core with groupRefs := g.refs }⟩
    else none
  | .finiJob =>
    if d.life = .leaving ∧ d.core.run = .idle ∧ d.core.reset = .idle then
      some { d with life := .late }
    else none
  | .release =>
    if d.life = .late ∧ d.core.irq = .idle then some { d with life := .down } else none

def LifeStep (jobs : Jobs) (d : CoreDev) (a : LifeAct) (d' : CoreDev) : Prop :=
  d.step jobs a = some d'

variable {jobs : Jobs} {c c' : Core} {d d' : CoreDev}

/-- The count the claim of a driver that balances its references would give. -/
def CoreDev.refsDue (d : CoreDev) : ℤ := if d.life = .up then 1 else 0

def Event.isSignalled : Event → Bool
  | .signalled _ => true
  | _ => false

/-- Jobs the IRQ thread has detached the group for. -/
def Core.detached (c : Core) : ℕ :=
  c.log.countP Event.isSignalled + match c.irq with
    | .detached _ => 1
    | _ => 0

theorem SubmitMove.groupRefs {job : ℕ} {p p' : SubmitPc} {e : Core}
    (h : SubmitMove job c p p' e) :
    e.groupRefs = c.groupRefs ∧ e.irq = c.irq ∧
      e.log.countP Event.isSignalled = c.log.countP Event.isSignalled := by
  cases h <;> simp [Event.isSignalled]

/-- A step takes a reference exactly when it detaches the group of a finished job. -/
theorem Move.groupRefs {a : Act} (h : Move jobs c a c') :
    c'.groupRefs - c'.detached = c.groupRefs - c.detached := by
  unfold Core.detached
  cases h
  case runSubmit hp hs =>
    obtain ⟨h1, h2, h3⟩ := hs.groupRefs
    simp [h1, h2, h3]
  case irqSubmit hp hs =>
    obtain ⟨h1, -, h3⟩ := hs.groupRefs
    simp [h1, h3, hp]
  case irqDetached hp =>
    simp only [hp]
    omega
  case signalled hp =>
    rw [List.countP_cons_of_pos rfl]
    simp [hp]
  case completed => rw [List.countP_cons_of_neg (by simp [Event.isSignalled])]
  all_goals simp_all

theorem rocketCoreInit_refs (env : CoreInitEnv) (refs : ℤ) :
    (∃ e, rocketCoreInit env ⟨false, refs⟩ = (some e, ⟨false, refs⟩)) ∨
      rocketCoreInit env ⟨false, refs⟩ = (none, ⟨true, refs + 1⟩) := by
  have hput : iommuGroupPut (iommuGroupGet ⟨false, refs⟩) = ⟨false, refs⟩ := by
    simp [iommuGroupPut, iommuGroupGet]
  unfold rocketCoreInit rocketCoreFini
  rw [hput]
  split
  · exact .inl ⟨_, rfl⟩
  · split
    · exact .inl ⟨_, rfl⟩
    · split
      · exact .inl ⟨_, rfl⟩
      · exact .inr rfl

/-- Whatever happens to a core, it holds the reference of `rocket_core_init` while it is up,
and one more for each job the IRQ thread finished. -/
structure RefsKept (d : CoreDev) : Prop where
  group : d.iommuGroup = true ↔ d.life = .up
  irqIdle : d.life = .down → d.core.irq = .idle
  refs : d.core.groupRefs = d.refsDue + d.core.detached

theorem Core.detached_fresh (refs : ℤ) (slot : Leftover) (c : Core) (h : c.irq = .idle) :
    (c.fresh refs slot).detached = c.detached := by
  simp [Core.detached, Core.fresh, Core.init, h]

theorem RefsKept.init {env : CoreInitEnv} {slot : Leftover} (hk : RefsKept d)
    (h : LifeStep jobs d (.init env slot) d') : RefsKept d' := by
  obtain ⟨hgroup, hidle, hrefs⟩ := hk
  simp only [LifeStep, CoreDev.step] at h
  split_ifs at h with hdown
  have hg : d.iommuGroup = false := by simp [← Bool.not_eq_true, hgroup, hdown]
  rw [hg] at h
  simp only [CoreDev.refsDue, hdown] at hrefs
  rcases rocketCoreInit_refs env d.core.groupRefs with ⟨e, he⟩ | hok
  · rw [he] at h
    cases h
    exact ⟨by simp, fun _ => hidle hdown, by simpa [CoreDev.refsDue] using hrefs⟩
  · rw [hok] at h
    cases h
    refine ⟨by simp, by simp, ?_⟩
    rw [Core.detached_fresh _ _ _ (hidle hdown)]
    simp only [CoreDev.refsDue, Core.fresh, if_true]
    simp at hrefs
    omega

theorem RefsKept.job {a : Act} (hk : RefsKept d) (h : LifeStep jobs d (.job a) d') :
    RefsKept d' := by
  obtain ⟨hgroup, hidle, hrefs⟩ := hk
  simp only [LifeStep, CoreDev.step] at h
  split_ifs at h with hruns
  obtain ⟨c, hc, rfl⟩ := Option.map_eq_some_iff.mp h
  have hmove := Move.groupRefs (Step.move hc)
  refine ⟨hgroup, fun hdown => ?_, ?_⟩
  · change d.life = .down at hdown
    simp [hdown, Life.runs] at hruns
  · simp only [CoreDev.refsDue] at hrefs ⊢
    omega

theorem RefsKept.step {a : LifeAct} (hk : RefsKept d) (h : LifeStep jobs d a d') :
    RefsKept d' := by
  cases a with
  | init env slot => exact hk.init h
  | job a => exact hk.job h
  | finiGroup =>
    obtain ⟨hgroup, hidle, hrefs⟩ := hk
    simp only [LifeStep, CoreDev.step] at h
    split_ifs at h with hup
    cases h
    simp only [CoreDev.refsDue, hup, if_true] at hrefs
    refine ⟨by simp [rocketCoreFini, iommuGroupPut], by simp, ?_⟩
    simp only [CoreDev.refsDue, rocketCoreFini, iommuGroupPut, hgroup.mpr hup, if_true]
    change _ = _ + (d.core.detached : ℤ)
    simp
    omega
  | finiJob =>
    obtain ⟨hgroup, hidle, hrefs⟩ := hk
    simp only [LifeStep, CoreDev.step] at h
    split_ifs at h with hl
    cases h
    refine ⟨by simp [hgroup, hl.1], by simp, ?_⟩
    simpa [CoreDev.refsDue, hl.1] using hrefs
  | release =>
    obtain ⟨hgroup, hidle, hrefs⟩ := hk
    simp only [LifeStep, CoreDev.step] at h
    split_ifs at h with hl
    cases h
    refine ⟨by simp [hgroup, hl.1], fun _ => hl.2, ?_⟩
    simpa [CoreDev.refsDue, hl.1] using hrefs

theorem groupRefs_eq (h : Reachable (· = CoreDev.load) (LifeStep jobs) d) :
    d.core.groupRefs = d.refsDue + d.core.detached := by
  suffices hk : RefsKept d from hk.refs
  apply h.invariant (I := RefsKept)
  · rintro d rfl
    exact ⟨by simp [CoreDev.load], fun _ => rfl, rfl⟩
  · intro d a d' hk hs
    exact hk.step hs

/-- The IRQ thread does not find a job in flight all of whose tasks were issued. -/
def finishesNone (jobs : Jobs) (d : CoreDev) : LifeAct → Bool
  | .job .irq =>
    match d.core.irq, d.core.inFlightJob with
    | .locked, some job => d.core.nextTaskIdx job < jobs.taskCount job
    | _, _ => true
  | _ => true

/-- No job was ever finished, and none is about to be. -/
structure Unfinished (c : Core) : Prop where
  closing : c.irq.closing = none
  log : c.log.countP Event.isSignalled = 0

theorem Unfinished.detached (h : Unfinished c) : c.detached = 0 := by
  have hirq := h.closing
  unfold Core.detached
  rw [h.log]
  split
  · next heq => simp [heq, IrqPc.closing] at hirq
  · rfl

theorem Unfinished.move {a : Act} (hu : Unfinished c) (h : Move jobs c a c')
    (hnone : a = .irq → c.irq = .locked → ∀ j, c.inFlightJob = some j →
      c.nextTaskIdx j < jobs.taskCount j) : Unfinished c' := by
  obtain ⟨hirq, hlog⟩ := hu
  cases h
  case runSubmit hp hs =>
    obtain ⟨-, h2, h3⟩ := hs.groupRefs
    exact ⟨(congrArg _ h2).trans hirq, h3.trans hlog⟩
  case irqSubmit hp hs => exact ⟨rfl, hs.groupRefs.2.2.trans hlog⟩
  case lastTask job hp hf hlast => exact absurd (hnone rfl hp job hf) (Nat.not_lt.mpr hlast)
  case irqDetached hp => simp [hp, IrqPc.closing] at hirq
  case signalled hp => simp [hp, IrqPc.closing] at hirq
  case completed =>
    refine ⟨hirq, ?_⟩
    rw [List.countP_cons_of_neg (by simp [Event.isSignalled])]
    exact hlog
  all_goals exact ⟨by first | exact hirq | rfl, hlog⟩

theorem Unfinished.lifeStep {a : LifeAct} (hu : Unfinished d.core) (h : LifeStep jobs d a d')
    (hnone : finishesNone jobs d a = true) : Unfinished d'.core := by
  cases a with
  | init env slot =>
    simp only [LifeStep, CoreDev.step] at h
    split_ifs at h
    split at h
    · cases h
      exact ⟨hu.closing, hu.log⟩
    · cases h
      exact ⟨rfl, hu.log⟩
  | job a =>
    simp only [LifeStep, CoreDev.step] at h
    split_ifs at h
    obtain ⟨c, hc, rfl⟩ := Option.map_eq_some_iff.mp h
    apply hu.move (Step.move hc)
    rintro rfl hlocked j hf
    simpa [finishesNone, hlocked, hf] using hnone
  | finiGroup =>
    simp only [LifeStep, CoreDev.step] at h
    split_ifs at h
    cases h
    exact ⟨hu.closing, hu.log⟩
  | finiJob | release =>
    simp only [LifeStep, CoreDev.step] at h
    split_ifs at h
    cases h
    exact hu

/-- In every run in which the IRQ thread finishes no job, the driver holds one reference on
the group while the core is initialised, and none at any other time. -/
theorem groupRefs_of_finishesNone
    (h : Reachable (· = CoreDev.load)
      (restrict (LifeStep jobs) fun d a => finishesNone jobs d a) d) :
    d.core.groupRefs = if d.life = .up then 1 else 0 := by
  suffices hi : RefsKept d ∧ Unfinished d.core by
    have hrefs := hi.1.refs
    rw [hi.2.detached] at hrefs
    simpa [CoreDev.refsDue] using hrefs
  apply h.invariant (I := fun d => RefsKept d ∧ Unfinished d.core)
  · rintro d rfl
    exact ⟨⟨by simp [CoreDev.load], fun _ => rfl, rfl⟩, ⟨rfl, rfl⟩⟩
  · intro d a d' hi hs
    exact ⟨hi.1.step hs.1, hi.2.lifeStep hs.1 hs.2⟩

/-- A core that is bound, does `as`, and is unbound. -/
def wholeLife (as : List Act) : List LifeAct :=
  LifeAct.init .smooth .clean :: as.map LifeAct.job ++ [.finiGroup, .finiJob, .release]

/-- A core whose only job times out. -/
def timedOutLife : List LifeAct :=
  wholeLife (startJob ++ Act.timeout 0 :: List.replicate 9 Act.reset)

theorem groupRefs_timedOut :
    ∃ d, timedOutLife.foldlM
        (fun d a => if finishesNone oneTask d a then d.step oneTask a else none)
        CoreDev.load = some d ∧ d.life = .down ∧ d.core.groupRefs = 0 := by
  have h0 : Reachable (· = CoreDev.load)
      (restrict (LifeStep oneTask) fun d a => finishesNone oneTask d a) CoreDev.load :=
    .start rfl
  have hend : (timedOutLife.foldlM
      (fun d a => if finishesNone oneTask d a then d.step oneTask a else none)
      CoreDev.load).map CoreDev.life = some .down := rfl
  obtain ⟨d, hd, hlife⟩ := Option.map_eq_some_iff.mp hend
  have hrefs := groupRefs_of_finishesNone (h0.foldlM (fun d a d' h => by
    split_ifs at h with hl
    exact ⟨h, hl⟩) hd)
  exact ⟨d, hd, hlife, by simpa [hlife] using hrefs⟩

/-- After one job that ran to its end the core is left with a reference too many. -/
theorem not_groupRefs :
    ∃ d, Reachable (· = CoreDev.load) (LifeStep oneTask) d ∧ d.life = .down ∧
      d.core.groupRefs = 1 := by
  have h0 : Reachable (· = CoreDev.load) (LifeStep oneTask) CoreDev.load := .start rfl
  have hend : ((wholeLife wholeJob).foldlM (CoreDev.step oneTask) CoreDev.load).map
      (fun d => (d.life, d.core.groupRefs)) = some (.down, 1) := rfl
  obtain ⟨d, hd, he⟩ := Option.map_eq_some_iff.mp hend
  obtain ⟨h1, h2⟩ := Prod.mk.inj he
  exact ⟨d, h0.foldlM (fun _ _ _ h => h) hd, h1, h2⟩

end RocketNpu.Job
