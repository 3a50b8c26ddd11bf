import Mathlib.Algebra.Order.Group.Nat
import RocketNpu.Job.Completion

namespace RocketNpu.Job
open Runs

/-- Where the ioctl that submits a job stands: before `kref_init`, before `rocket_job_push` has
pushed it, before `rocket_attach_object_fences`, before its last `rocket_job_put`, after it. -/
inductive SubmitStage where
  | unborn | filling | pushed | attached | gone
deriving DecidableEq, Repr

/-- The reference of `kref_init` is still there. -/
def SubmitStage.holds : SubmitStage → Bool
  | .filling | .pushed | .attached => true
  | .unborn | .gone => false

/-- A core and the jobs as objects in memory. -/
structure Memory where
  core : Core
  ioctl : ℕ → SubmitStage
  refcount : ℕ → ℕ
  /-- The reference `rocket_job_push` took is still there. -/
  owned : ℕ → Bool
  /-- How often `rocket_job_cleanup` was called. -/
  cleanups : ℕ → ℕ

def Memory.init : Memory where
  core := .init
  ioctl _ := .unborn
  refcount _ := 0
  owned _ := false
  cleanups _ := 0

def Memory.goto (m : Memory) (j : ℕ) (p : SubmitStage) : Memory :=
  { m with ioctl := Function.update m.ioctl j p }

def Memory.disown (m : Memory) (j : ℕ) : Memory :=
  { m with owned := Function.update m.owned j false }

/-- `kref_put`, which calls `rocket_job_cleanup` when the count reaches zero. -/
def rocketJobPut (j : ℕ) (m : Memory) : Memory :=
  { m with
    refcount := Function.update m.refcount j (m.refcount j - 1)
    cleanups := if m.refcount j = 1 then Function.update m.cleanups j (m.cleanups j + 1)
      else m.cleanups }

inductive MemAct where
  | init (job : ℕ)
  | fail (job : ℕ)
  | push (job : ℕ)
  | attach (job : ℕ)
  | leave (job : ℕ)
  /-- The entity is closed before the job was taken off its queue. -/
  | kill (job : ℕ)
  | free (job : ℕ)
  | core (a : Act)
deriving DecidableEq, Repr

variable (jobs : Jobs)

/-- The scheduler is given pushed jobs, frees those it is done with, and times out none that it
has freed. -/
def Memory.step (m : Memory) : MemAct → Option Memory
  | .init j =>
    if m.ioctl j = .unborn then
      some { m.goto j .filling with refcount := Function.update m.refcount j 1 }
    else none
  | .fail j => if m.ioctl j = .filling then some (rocketJobPut j (m.goto j .gone)) else none
  | .push j =>
    if m.ioctl j = .filling then
      some { m.goto j .pushed with
        refcount := Function.update m.refcount j (m.refcount j + 1)
        owned := Function.update m.owned j true }
    else none
  | .attach j => if m.ioctl j = .pushed then some (m.goto j .attached) else none
  | .leave j => if m.ioctl j = .attached then some (rocketJobPut j (m.goto j .gone)) else none
  | .kill j =>
    if m.owned j = true ∧ m.core.taken j = false then
      some (rocketJobPut j { m.disown j with
        core := { m.core with taken := Function.update m.core.taken j true } })
    else none
  | .free j =>
    if m.owned j = true ∧ m.core.taken j = true ∧ m.core.current ≠ some j then
      some (rocketJobPut j (m.disown j))
    else none
  | .core (.schedule j fail) =>
    if m.owned j = true then
      (m.core.step jobs (.schedule j fail)).map fun c => { m with core := c }
    else none
  | .core (.timeout j) =>
    if m.owned j = true then
      (m.core.step jobs (.timeout j)).map fun c => { m with core := c }
    else none
  | .core a => (m.core.step jobs a).map fun c => { m with core := c }

def MemStep (m : Memory) (a : MemAct) (m' : Memory) : Prop := m.step jobs a = some m'

def RunPc.job : RunPc → Option ℕ
  | .idle => none
  | .fenced j | .powered j | .attached j | .locked j | .submit j _ => some j

/-- The job whose fields a step of the core reads or writes. -/
def Core.touches (c : Core) : Act → Option ℕ
  | .schedule j _ => some j
  | .run _ => c.run.job
  | .irq =>
    match c.irq with
    | .locked => c.inFlightJob
    | .submit j _ | .detached j => some j
    -- `core->in_flight_job` is compared or overwritten here, and not followed
    | _ => none
  | .timeout j => some j
  | _ => none

def Memory.touches (m : Memory) : MemAct → Option ℕ
  | .init _ => none
  | .fail j | .push j | .attach j | .leave j | .kill j | .free j => some j
  | .core a => m.core.touches a

/-- The job is an object in memory. -/
def Memory.Alive (m : Memory) (j : ℕ) : Prop := 0 < m.refcount j ∧ m.cleanups j = 0

variable {jobs} {c c' : Core} {m m' : Memory}

/-- Both references count, the clean-up comes with the last of them, and the scheduler has handed
out only jobs it holds one on. -/
structure Counted (jobs : Jobs) (m : Memory) : Prop where
  wf : Wf jobs m.core
  refs : ∀ j, m.refcount j = (m.ioctl j).holds.toNat + (m.owned j).toNat
  cleanups : ∀ j, m.cleanups j = if m.ioctl j ≠ .unborn ∧ m.refcount j = 0 then 1 else 0
  unpushed : ∀ j, m.ioctl j = .unborn ∨ m.ioctl j = .filling →
    m.owned j = false ∧ m.core.taken j = false
  current : ∀ j, m.core.current = some j → m.owned j = true

theorem Counted.init : Counted jobs .init where
  wf := ⟨Locks.init, Sched.init⟩
  refs j := rfl
  cleanups j := by simp [Memory.init]
  unpushed j _ := ⟨rfl, rfl⟩
  current j h := by cases h

/-- While the IRQ thread or `rocket_job_run` is at a job the scheduler is not done with it. -/
theorem Wf.current_of_touches (hw : Wf jobs c) {a : Act} {j : ℕ} (h : c.touches a = some j)
    (ha : ∀ fail, a ≠ .schedule j fail) (ht : a ≠ .timeout j) : c.current = some j := by
  have hflight (hf : c.inFlightJob = some j) (hne : c.irq ≠ .signalled j) : c.current = some j :=
    (hw.sched.current j hf).resolve_right hne
  cases a with
  | schedule k fail =>
    obtain rfl : k = j := by simpa [Core.touches] using h
    exact absurd rfl (ha fail)
  | run fail =>
    cases hr : c.run with
    | idle => simp [Core.touches, RunPc.job, hr] at h
    | submit k p =>
      obtain rfl : k = j := by simpa [Core.touches, RunPc.job, hr] using h
      apply hflight (hw.sched.runSubmit k p hr).1
      have hout := (hw.locks.irq_outside (by simp [hr, RunPc.holds])).1
      intro hs
      simp [hs, IrqPc.holds] at hout
    | _ =>
      apply fun hs => (hw.sched.starting j hs).1
      simpa [Core.touches, RunPc.job, RunPc.starting, hr] using h
  | irq =>
    cases hi : c.irq with
    | locked => exact hflight (by simpa [Core.touches, hi] using h) (by simp [hi])
    | submit k p =>
      obtain rfl : k = j := by simpa [Core.touches, hi] using h
      exact hflight (hw.sched.irqSubmit k p hi).1 (by simp [hi])
    | detached k =>
      obtain rfl : k = j := by simpa [Core.touches, hi] using h
      exact hflight (hw.sched.closing k (by simp [hi, IrqPc.closing])).1 (by simp [hi])
    | _ => simp [Core.touches, hi] at h
  | timeout k =>
    obtain rfl : k = j := by simpa [Core.touches] using h
    exact absurd rfl ht
  | _ => simp [Core.touches] at h

theorem Counted.alive_of_refs (h : Counted jobs m) {j : ℕ}
    (hj : (m.ioctl j).holds = true ∨ m.owned j = true) : m.Alive j := by
  have hpos : 0 < m.refcount j := by
    rw [h.refs j]
    rcases hj with hj | hj <;> simp [hj]
  exact ⟨hpos, by rw [h.cleanups j, if_neg fun hz => hpos.ne' hz.2]⟩

theorem SubmitMove.scheduler {job : ℕ} {p p' : SubmitPc} {d : Core} (h : SubmitMove job c p p' d) :
    d.current = c.current ∧ d.taken = c.taken := by
  cases h <;> exact ⟨rfl, rfl⟩

/-- The scheduler hands out and takes off its queue only the job it is asked to. -/
theorem Move.scheduler {a : Act} (h : Move jobs c a c') (j : ℕ)
    (ha : ∀ fail, a ≠ .schedule j fail) :
    (c'.current = some j → c.current = some j) ∧ c'.taken j = c.taken j := by
  cases h
  case dropped k fail _ _ _ _ =>
    have hne : j ≠ k := fun e => ha fail (e ▸ rfl)
    exact ⟨id, by simp [hne]⟩
  case scheduled k _ _ _ _ _ =>
    have hne : j ≠ k := fun e => ha false (e ▸ rfl)
    exact ⟨fun hj => absurd (Option.some.inj hj).symm hne, by simp [hne]⟩
  case runSubmit hm | irqSubmit hm =>
    obtain ⟨hcurrent, htaken⟩ := hm.scheduler
    exact ⟨fun hj => hcurrent ▸ hj, congrFun htaken j⟩
  case signalled =>
    refine ⟨fun hj => ?_, rfl⟩
    dsimp only at hj
    split_ifs at hj
    exact hj
  case schedStarted => exact ⟨fun hj => absurd hj (by simp), rfl⟩
  all_goals exact ⟨id, rfl⟩

/-- Taking a job off the queue disturbs no job that was taken before. -/
theorem Wf.take (hw : Wf jobs c) (j : ℕ) :
    Wf jobs { c with taken := Function.update c.taken j true } where
  locks := ⟨hw.locks.run, hw.locks.irq, hw.locks.reset⟩
  sched := { hw.sched with
    takenCurrent := fun k hk => Sched.taken_mono (hw.sched.takenCurrent k hk) j
    takenFlight := fun k hk => Sched.taken_mono (hw.sched.takenFlight k hk) j
    fresh := fun k hk => hw.sched.fresh k ((Sched.taken_update j k _).mp hk).2 }

namespace Counted

theorem core (h : Counted jobs m) (hw : Wf jobs c)
    (htaken : ∀ j, m.owned j = false → c.taken j = true → m.core.taken j = true)
    (hcurrent : ∀ j, c.current = some j → m.owned j = true) :
    Counted jobs { m with core := c } where
  wf := hw
  refs := h.refs
  cleanups := h.cleanups
  unpushed j hj := by
    obtain ⟨hown, hnew⟩ := h.unpushed j hj
    refine ⟨hown, ?_⟩
    by_contra ht
    rw [htaken j hown (by simpa using ht)] at hnew
    cases hnew
  current := hcurrent

theorem goto (h : Counted jobs m) {j : ℕ} {p : SubmitStage}
    (hp : p ≠ .unborn ∧ p ≠ .filling) (hold : m.ioctl j ≠ .unborn)
    (hh : p.holds = (m.ioctl j).holds) : Counted jobs (m.goto j p) where
  wf := h.wf
  refs i := by
    by_cases hi : i = j
    · subst hi
      simpa [Memory.goto, hh] using h.refs i
    · simpa [Memory.goto, hi] using h.refs i
  cleanups i := by
    by_cases hi : i = j
    · subst hi
      simpa [Memory.goto, hp.1, hold] using h.cleanups i
    · simpa [Memory.goto, hi] using h.cleanups i
  unpushed i hi := by
    by_cases hij : i = j
    · simp [Memory.goto, hij, hp.1, hp.2] at hi
    · exact h.unpushed i (by simpa [Memory.goto, hij] using hi)
  current := h.current

/-- One of the references is dropped. -/
theorem put (h : Counted jobs m) {j : ℕ} {p : SubmitStage} {b : Bool}
    (hdue : (m.ioctl j).holds.toNat + (m.owned j).toNat = p.holds.toNat + b.toNat + 1)
    (hp : p ≠ .unborn ∧ p ≠ .filling)
    (hcurrent : m.core.current = some j → b = true) :
    Counted jobs (rocketJobPut j { m with
      ioctl := Function.update m.ioctl j p
      owned := Function.update m.owned j b }) := by
  have hrefs := h.refs j
  have hzero : m.cleanups j = 0 := by
    rw [h.cleanups j, if_neg]
    omega
  refine ⟨h.wf, fun i => ?_, fun i => ?_, fun i hi => ?_, fun i hi => ?_⟩
  · by_cases hij : i = j
    · subst hij
      simp only [rocketJobPut, Function.update_self]
      omega
    · simpa [rocketJobPut, hij] using h.refs i
  · by_cases hij : i = j
    · subst hij
      by_cases hone : m.refcount i = 1
      · simp [rocketJobPut, hone, hzero, hp.1]
      · have hmore : m.refcount i - 1 ≠ 0 := by omega
        simp [rocketJobPut, hone, hzero, hmore]
    · have hi := h.cleanups i
      by_cases hone : m.refcount j = 1
      · simpa [rocketJobPut, hone, hij] using hi
      · simpa [rocketJobPut, hone, hij] using hi
  · by_cases hij : i = j
    · simp [rocketJobPut, hij, hp.1, hp.2] at hi
    · simpa [rocketJobPut, hij] using h.unpushed i (by simpa [rocketJobPut, hij] using hi)
  · by_cases hij : i = j
    · subst hij
      simpa [rocketJobPut] using hcurrent hi
    · simpa [rocketJobPut, hij] using h.current i hi

theorem begin (h : Counted jobs m) {j : ℕ} (hj : m.ioctl j = .unborn) :
    Counted jobs { m.goto j .filling with refcount := Function.update m.refcount j 1 } := by
  obtain ⟨hown, hnew⟩ := h.unpushed j (.inl hj)
  refine ⟨h.wf, fun i => ?_, fun i => ?_, fun i hi => ?_, h.current⟩
  · by_cases hij : i = j
    · simp [Memory.goto, hij, hown, SubmitStage.holds]
    · simpa [Memory.goto, hij] using h.refs i
  · by_cases hij : i = j
    · simpa [Memory.goto, hij, hj] using h.cleanups j
    · simpa [Memory.goto, hij] using h.cleanups i
  · by_cases hij : i = j
    · subst hij
      exact ⟨hown, hnew⟩
    · exact h.unpushed i (by simpa [Memory.goto, hij] using hi)

theorem push (h : Counted jobs m) {j : ℕ} (hj : m.ioctl j = .filling) :
    Counted jobs { m.goto j .pushed with
      refcount := Function.update m.refcount j (m.refcount j + 1)
      owned := Function.update m.owned j true } := by
  obtain ⟨hown, -⟩ := h.unpushed j (.inr hj)
  have hone : m.refcount j = 1 := by simp [h.refs j, hj, hown, SubmitStage.holds]
  refine ⟨h.wf, fun i => ?_, fun i => ?_, fun i hi => ?_, fun i hi => ?_⟩
  · by_cases hij : i = j
    · simp [Memory.goto, hij, hone, SubmitStage.holds]
    · simpa [Memory.goto, hij] using h.refs i
  · by_cases hij : i = j
    · simpa [Memory.goto, hij, hone] using h.cleanups j
    · simpa [Memory.goto, hij] using h.cleanups i
  · by_cases hij : i = j
    · simp [Memory.goto, hij] at hi
    · simpa [Memory.goto, hij] using h.unpushed i (by simpa [Memory.goto, hij] using hi)
  · by_cases hij : i = j
    · simp [hij]
    · simpa [hij] using h.current i hi

/-- The scheduler lets go of a job it has taken off its queue. -/
theorem release (h : Counted jobs m) {j : ℕ} (hown : m.owned j = true)
    (hcurrent : m.core.current ≠ some j) : Counted jobs (rocketJobPut j (m.disown j)) := by
  have hstage : m.ioctl j ≠ .unborn ∧ m.ioctl j ≠ .filling := by
    constructor <;> intro he <;> simp [(h.unpushed j (by simp [he])).1] at hown
  have := h.put (p := m.ioctl j) (b := false) (by simp [hown]) hstage
    fun hc => absurd hc hcurrent
  simpa [Memory.disown] using this

theorem leave (h : Counted jobs m) {j : ℕ} (hj : (m.ioctl j).holds = true) :
    Counted jobs (rocketJobPut j (m.goto j .gone)) := by
  have hdue : (m.ioctl j).holds.toNat + (m.owned j).toNat =
      SubmitStage.gone.holds.toNat + (m.owned j).toNat + 1 := by
    rw [hj, Nat.add_comm]
    simp [SubmitStage.holds]
  have := h.put hdue (by simp) (h.current j)
  simpa [Memory.goto] using this

theorem coreStep {a : Act} (h : Counted jobs m) (hs : Step jobs m.core a c)
    (ha : ∀ j fail, a = .schedule j fail → m.owned j = true) :
    Counted jobs { m with core := c } := by
  have hmove (j : ℕ) (hown : m.owned j = false) := hs.move.scheduler j fun fail he => by
    rw [ha j fail he] at hown
    cases hown
  refine h.core (h.wf.step hs) (fun j hown ht => (hmove j hown).2 ▸ ht) fun j hj => ?_
  by_contra hown
  rw [Bool.not_eq_true] at hown
  rw [h.current j ((hmove j hown).1 hj)] at hown
  cases hown

theorem step {a : MemAct} (h : Counted jobs m) (hs : MemStep jobs m a m') : Counted jobs m' := by
  have hcore {a : Act} (ha : ∀ j fail, a = .schedule j fail → m.owned j = true)
      (hs : (m.core.step jobs a).map (fun c => { m with core := c }) = some m') :
      Counted jobs m' := by
    obtain ⟨c, hc, rfl⟩ := Option.map_eq_some_iff.mp hs
    exact h.coreStep hc ha
  unfold MemStep Memory.step at hs
  split at hs
  case h_1 j =>
    split_ifs at hs with hj
    cases hs
    exact h.begin hj
  case h_2 j =>
    split_ifs at hs with hj
    cases hs
    exact h.leave (by simp [hj, SubmitStage.holds])
  case h_3 j =>
    split_ifs at hs with hj
    cases hs
    exact h.push hj
  case h_4 j =>
    split_ifs at hs with hj
    cases hs
    exact h.goto (by simp) (by simp [hj]) (by simp [hj, SubmitStage.holds])
  case h_5 j =>
    split_ifs at hs with hj
    cases hs
    exact h.leave (by simp [hj, SubmitStage.holds])
  case h_6 j =>
    split_ifs at hs with hj
    cases hs
    have hcurrent : m.core.current ≠ some j := by
      intro hc
      rw [h.wf.sched.takenCurrent j hc] at hj
      cases hj.2
    have htake : Counted jobs
        { m with core := { m.core with taken := Function.update m.core.taken j true } } := by
      refine h.core (h.wf.take j) (fun i hown ht => ?_) h.current
      have hne : i ≠ j := by
        rintro rfl
        rw [hj.1] at hown
        cases hown
      simpa [hne] using ht
    exact htake.release hj.1 hcurrent
  case h_7 j =>
    split_ifs at hs with hj
    cases hs
    exact h.release hj.1 hj.2.2
  case h_8 j fail =>
    split_ifs at hs with hj
    apply hcore _ hs
    rintro i f ⟨⟩
    exact hj
  case h_9 j =>
    split_ifs at hs
    exact hcore (fun i fail he => by cases he) hs
  case h_10 a ha _ => exact hcore (fun j fail he => absurd he (ha j fail)) hs

end Counted

theorem counted_of_reachable (h : Reachable (· = .init) (MemStep jobs) m) : Counted jobs m := by
  refine h.invariant ?_ fun _ _ _ hc hs => hc.step hs
  rintro _ rfl
  exact Counted.init

/-- A step is only taken at a job that a reference is held on. -/
theorem Counted.holds_of_touches (h : Counted jobs m) {a : MemAct} {j : ℕ}
    (hs : MemStep jobs m a m') (ht : m.touches a = some j) :
    (m.ioctl j).holds = true ∨ m.owned j = true := by
  unfold MemStep Memory.step at hs
  split at hs
  case h_1 => simp [Memory.touches] at ht
  case h_8 k fail =>
    split_ifs at hs with hk
    obtain rfl : k = j := by simpa [Memory.touches, Core.touches] using ht
    exact .inr hk
  case h_9 k =>
    split_ifs at hs with hk
    obtain rfl : k = j := by simpa [Memory.touches, Core.touches] using ht
    exact .inr hk
  case h_10 a ha hb =>
    exact .inr (h.current j (h.wf.current_of_touches ht (fun fail he => ha j fail he) (hb j)))
  all_goals
    split_ifs at hs with hk
    obtain rfl := Option.some.inj ht
    simp [hk, SubmitStage.holds]

/-- No step reads or writes a job that is not there, and each job is cleaned up once: when the
ioctl and the scheduler are both done with it. -/
theorem touches_alive (h : Reachable (· = .init) (MemStep jobs) m) (j : ℕ) :
    (∀ a m', MemStep jobs m a m' → m.touches a = some j → m.Alive j) ∧
      m.cleanups j = if m.ioctl j = .gone ∧ m.owned j = false then 1 else 0 := by
  have hc := counted_of_reachable h
  refine ⟨fun a m' hs ht => hc.alive_of_refs (hc.holds_of_touches hs ht), ?_⟩
  rw [hc.cleanups j, hc.refs j]
  cases hi : m.ioctl j <;> simp [SubmitStage.holds]

/-- A job that is submitted and runs to its end; the scheduler frees it before the ioctl that
submitted it is over. -/
def submittedJob : List MemAct :=
  [.init 0, .push 0] ++ wholeJob.map .core ++ [.free 0, .attach 0]

theorem touches_alive_submitted : ∃ m m', Memory.step oneTask m (.leave 0) = some m' ∧
    m.Alive 0 ∧ m.owned 0 = false ∧ m'.cleanups 0 = 1 := by
  have hend : ((submittedJob.foldlM (Memory.step oneTask) Memory.init).map fun m =>
      (m.owned 0, (m.step oneTask (.leave 0)).map fun m' => (m'.ioctl 0, m'.owned 0))) =
      some (false, some (.gone, false)) := rfl
  obtain ⟨m, hm, hown⟩ := Option.map_eq_some_iff.mp hend
  obtain ⟨hown, hleave⟩ := Prod.mk.inj hown
  obtain ⟨m', hm', hgone⟩ := Option.map_eq_some_iff.mp hleave
  obtain ⟨hgone, hown'⟩ := Prod.mk.inj hgone
  have h0 : Reachable (· = Memory.init) (MemStep oneTask) Memory.init := .start rfl
  have hreach := h0.foldlM (fun _ _ _ h => h) hm
  refine ⟨m, m', hm', (touches_alive hreach 0).1 _ m' hm' rfl, hown, ?_⟩
  rw [(touches_alive (hreach.step hm') 0).2, hgone, hown']
  rfl

end RocketNpu.Job
