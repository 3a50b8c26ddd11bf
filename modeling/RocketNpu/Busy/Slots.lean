import RocketNpu.Busy.Counters
import RocketNpu.Devfreq.Calls
import RocketNpu.Job.Isolation

namespace RocketNpu.Busy
open Devfreq Runs
open Job (Core Act Jobs Move oneTask startJob)

/-- The record call that a step of the job path makes; `true` is `record_busy`. -/
def recorded (c : Core) : Act → Option Bool
  | .run _ =>
    match c.run with
    | .locked _ => some true
    | _ => none
  | .irq =>
    match c.irq with
    | .signalled _ => some false
    | _ => none
  | .reset =>
    match c.reset with
    | .detached => some false
    | _ => none
  | _ => none

/-- The counters after the record call of a step. -/
def recordCall (i now : ℕ) (c : Counters) : Option Bool → Counters
  | some true => rocketDevfreqRecordBusy i now c
  | some false => rocketDevfreqRecordIdle i now c
  | none => c

/-- A core in a `rocket_device` that was just allocated; what is not part of it stays. -/
def allocCore (c : Core) : Core :=
  { Core.init with busy := c.busy, taken := c.taken, nextTaskIdx := c.nextTaskIdx }

/-- `rocket_core_init` on a slot: `in_flight_job` and `reset.pending` are as an earlier core
left them, and the group as its device was left. -/
def initCore (group : Option ℕ) (c : Core) : Core :=
  { allocCore c with inFlightJob := c.inFlightJob, resetPending := c.resetPending, group }

/-- All cores at work, while they come and go. -/
structure Slots (n : ℕ) where
  calls : Calls n
  /-- `rdev->cores`, with what is left in the slots that are free. -/
  cores : ℕ → Core
  counters : Counters
  now : ℕ

inductive SlotOp (n : ℕ) where
  | tick (t : ℕ)
  | probe (env : ProbeEnv n) (d : Fin n) (group : Option ℕ)
  | call (op : CallOp n)
  | job (i : ℕ) (a : Act)
  | getDevStatus (reqRate : ℕ)

variable {n : ℕ} {jobs : Jobs} {x y : Slots n}

/-- What `rocket_probe` does to the memory of the cores. -/
def probeCores (group : Option ℕ) (before after : Calls n) (cores : ℕ → Core) : ℕ → Core :=
  let cores := if before.s.rdev = none then fun i => allocCore (cores i) else cores
  match after.phase with
  | .coreInited core _ => Function.update cores core.idx (initCore group (cores core.idx))
  | _ => cores

def SlotOp.run (jobs : Jobs) (e : SlotOp n) (x : Slots n) : Option (Slots n) :=
  match e with
  | .tick t => some { x with now := t }
  | .probe env d group =>
    ((CallOp.probe env d).run x.calls).map fun calls =>
      { x with calls, cores := probeCores group x.calls calls x.cores }
  | .call op => (op.run x.calls).map fun calls => { x with calls }
  | .job i a =>
    ((x.cores i).step jobs a).map fun c =>
      { x with
        cores := Function.update x.cores i c
        counters := recordCall i x.now x.counters (recorded (x.cores i) a) }
  | .getDevStatus reqRate =>
    let maxCores := x.calls.s.df.core.map fun _ => n
    some { x with
      counters := (rocketDevfreqGetDevStatus maxCores reqRate x.now x.counters).2 }

/-- Jobs run on the cores that are bound. -/
def SlotOp.Admissible : SlotOp n → Slots n → Prop
  | .tick t, x => x.now ≤ t
  | .probe env d _, x => (CallOp.probe env d).Admissible x.calls
  | .call op, x => op.Admissible x.calls ∧ ∀ env d, op ≠ .probe env d
  | .job i _, x => (x.calls.s.cores i).isSome
  | .getDevStatus _, _ => True

def SlotStep (jobs : Jobs) (x : Slots n) (e : SlotOp n) (y : Slots n) : Prop :=
  e.Admissible x ∧ e.run jobs x = some y

/-- Module load, after tick 0. -/
def SlotStart (x : Slots n) : Prop :=
  Devfreq.CallStart x.calls ∧ x.cores = (fun _ => Core.init) ∧ x.counters = .load ∧ x.now ≠ 0

/-- The counter of a slot says busy exactly while a core is bound in it with a job in
flight. -/
def Slots.InStep (x : Slots n) : Prop :=
  ∀ i < rocketDfMaxNb, x.counters.start i ≠ 0 ↔
    (x.calls.s.cores i).isSome ∧ (x.cores i).inFlightJob.isSome

/-- `rocket_remove` does not take the slot of a core with a job in flight away. -/
def Quiet (x : Slots n) : SlotOp n → Prop
  | .call .unbind => ∀ core d, x.calls.phase = .finished core d → core.idx < rocketDfMaxNb →
      (x.cores core.idx).inFlightJob = none
  | _ => True

theorem submitMove_inFlight {job : ℕ} {c c' : Core} {p p' : Job.SubmitPc}
    (h : Job.SubmitMove job c p p' c') : c'.inFlightJob = c.inFlightJob ∧ c'.busy = c.busy := by
  cases h <;> exact ⟨rfl, rfl⟩

/-- `in_flight_job` is written in the steps that call a record function, and only there. -/
theorem inFlight_of_move {c c' : Core} {a : Act} (h : Move jobs c a c') :
    match recorded c a with
    | some on => c'.inFlightJob.isSome = on ∧ c'.busy = on
    | none => c'.inFlightJob = c.inFlightJob ∧ c'.busy = c.busy := by
  cases h with
  | stored hpc => simp [recorded, hpc]
  | finished hpc => simp [recorded, hpc]
  | forgotten hpc => simp [recorded, hpc]
  | runSubmit hpc hsub => simpa [recorded, hpc] using submitMove_inFlight hsub
  | irqSubmit hpc hsub => simpa [recorded, hpc] using submitMove_inFlight hsub
  | _ => simp_all [recorded]

/-- What holds between the counters, the cores and the slots. -/
structure Linked (x : Slots n) : Prop where
  calls : CallInv x.calls
  now : x.now ≠ 0
  /-- `Core.busy` stands for the counter. -/
  flag : ∀ i < rocketDfMaxNb, x.counters.start i ≠ 0 ↔ (x.cores i).busy = true
  job : ∀ i < rocketDfMaxNb, (x.cores i).busy = (x.cores i).inFlightJob.isSome
  free : ∀ i < rocketDfMaxNb, x.calls.s.cores i = none → (x.cores i).inFlightJob = none

theorem Linked.inStep (h : Linked x) : x.InStep := by
  intro i hi
  rw [h.flag i hi, h.job i hi]
  constructor
  · intro hjob
    refine ⟨?_, hjob⟩
    by_contra hfree
    rw [h.free i hi (by simpa using hfree)] at hjob
    simp at hjob
  · exact fun hboth => hboth.2

theorem Linked.start (h : SlotStart x) : Linked x := by
  obtain ⟨hcalls, hcores, hcounters, hnow⟩ := h
  have hinit (i : ℕ) : x.cores i = Core.init := congrFun hcores i
  refine ⟨CallReaches.inv (.start hcalls), hnow, fun i _ => ?_, fun i _ => ?_, fun i _ _ => ?_⟩
  · simp [hcounters, hinit, Counters.load, Core.init]
  · simp [hinit, Core.init]
  · simp [hinit, Core.init]

/-- A probe stores no job, and clears `in_flight_job` with a new device only. -/
theorem probeCores_inFlight (group : Option ℕ) (s t : Calls n) (cores : ℕ → Core) (i : ℕ) :
    (probeCores group s t cores i).busy = (cores i).busy ∧
      (probeCores group s t cores i).inFlightJob =
        if s.s.rdev = none then none else (cores i).inFlightJob := by
  have halloc (j : ℕ) :
      ((if s.s.rdev = none then fun i => allocCore (cores i) else cores) j).busy =
          (cores j).busy ∧
        ((if s.s.rdev = none then fun i => allocCore (cores i) else cores) j).inFlightJob =
          if s.s.rdev = none then none else (cores j).inFlightJob := by
    split_ifs
    · exact ⟨rfl, rfl⟩
    · exact ⟨rfl, rfl⟩
  unfold probeCores
  generalize (if s.s.rdev = none then fun i => allocCore (cores i) else cores) = fresh at halloc ⊢
  cases t.phase with
  | coreInited core d =>
    by_cases hi : i = core.idx
    · subst hi
      simpa [initCore, allocCore] using halloc core.idx
    · simpa [hi] using halloc i
  | _ => exact halloc i

theorem Linked.probe (h : Linked x) {env : ProbeEnv n} {d : Fin n} (group : Option ℕ)
    {calls : Calls n} (hs : Devfreq.CallStep x.calls (.probe env d) calls) :
    Linked { x with calls, cores := probeCores group x.calls calls x.cores } where
  calls := h.calls.step hs
  now := h.now
  flag i hi := by
    rw [(probeCores_inFlight group _ _ _ i).1]
    exact h.flag i hi
  job i hi := by
    rw [(probeCores_inFlight group _ _ _ i).1, (probeCores_inFlight group _ _ _ i).2, h.job i hi]
    split_ifs with hr
    · rw [h.free i hi (h.calls.balanced.sound.absent hr i)]
    · rfl
  free i hi hfree := by
    rw [(probeCores_inFlight group _ _ _ i).2]
    split_ifs
    · rfl
    · rcases hs.cores h.calls hfree with hold | ⟨hop, -⟩
      · exact h.free i hi hold
      · cases hop

theorem Linked.call (h : Linked x) {op : CallOp n} {calls : Calls n}
    (hs : Devfreq.CallStep x.calls op calls) (hq : Quiet x (.call op)) :
    Linked { x with calls } where
  calls := h.calls.step hs
  now := h.now
  flag := h.flag
  job := h.job
  free i hi hfree := by
    rcases hs.cores h.calls hfree with hold | ⟨rfl, core, d, hphase, rfl⟩
    · exact h.free i hi hold
    · exact hq core d hphase hi

theorem recordCall_start_self {i now : ℕ} (hi : i < rocketDfMaxNb) (hnow : now ≠ 0)
    (c : Counters) (r : Option Bool) :
    (recordCall i now c r).start i ≠ 0 ↔ r.getD (decide (c.start i ≠ 0)) = true := by
  rcases r with _ | _ | _
  · simp [recordCall]
  · simp [recordCall, recordIdle_start i now c hi]
  · by_cases h0 : c.start i = 0
    · simp [recordCall, recordBusy_start i now c hi, h0, hnow]
    · simp [recordCall, recordBusy_start i now c hi, h0]

theorem recordCall_start_of_ne {i now : ℕ} (c : Counters) (r : Option Bool) {j : ℕ}
    (hj : j ≠ i) : (recordCall i now c r).start j = c.start j := by
  rcases r with _ | _ | _
  · rfl
  · unfold recordCall rocketDevfreqRecordIdle
    split_ifs
    · simp [hj]
    · rfl
  · rcases recordBusy_start_cases i now c j with hsame | ⟨hji, -⟩
    · exact hsame
    · exact absurd hji hj

theorem Linked.job_step (h : Linked x) {i : ℕ} (hb : (x.calls.s.cores i).isSome) {a : Act}
    {c : Core} (hs : Job.Step jobs (x.cores i) a c) :
    Linked { x with
      cores := Function.update x.cores i c
      counters := recordCall i x.now x.counters (recorded (x.cores i) a) } := by
  have hmove := inFlight_of_move hs.move
  refine ⟨h.calls, h.now, fun j hj => ?_, fun j hj => ?_, fun j hj hfree => ?_⟩
  · by_cases hji : j = i
    · subst hji
      show (recordCall j x.now x.counters _).start j ≠ 0 ↔ (Function.update x.cores j c j).busy = _
      rw [recordCall_start_self hj h.now, Function.update_self]
      cases hr : recorded (x.cores j) a with
      | none =>
        rw [hr] at hmove
        rw [hmove.2, Option.getD_none, decide_eq_true_iff]
        exact h.flag j hj
      | some on =>
        rw [hr] at hmove
        rw [hmove.2, Option.getD_some]
    · show (recordCall i x.now x.counters _).start j ≠ 0 ↔ (Function.update x.cores i c j).busy = _
      rw [recordCall_start_of_ne _ _ hji, Function.update_of_ne hji]
      exact h.flag j hj
  · by_cases hji : j = i
    · subst hji
      show (Function.update x.cores j c j).busy = (Function.update x.cores j c j).inFlightJob.isSome
      rw [Function.update_self]
      cases hr : recorded (x.cores j) a with
      | none =>
        rw [hr] at hmove
        rw [hmove.1, hmove.2]
        exact h.job j hj
      | some on =>
        rw [hr] at hmove
        exact hmove.2.trans hmove.1.symm
    · show (Function.update x.cores i c j).busy = (Function.update x.cores i c j).inFlightJob.isSome
      rw [Function.update_of_ne hji]
      exact h.job j hj
  · have hnone : x.calls.s.cores j = none := hfree
    have hji : j ≠ i := by
      rintro rfl
      simp [hnone] at hb
    show (Function.update x.cores i c j).inFlightJob = none
    rw [Function.update_of_ne hji]
    exact h.free j hj hnone

theorem Linked.getDevStatus (h : Linked x) (maxCores : Option ℕ) (reqRate : ℕ) :
    Linked { x with
      counters := (rocketDevfreqGetDevStatus maxCores reqRate x.now x.counters).2 } := by
  refine { h with flag := fun i hi => ?_ }
  rw [← h.flag i hi, getDevStatus_start]
  split_ifs with hread
  · simp [hread.2, h.now]
  · rfl

theorem Linked.step (h : Linked x) {e : SlotOp n}
    (hs : restrict (SlotStep jobs) Quiet x e y) : Linked y := by
  obtain ⟨⟨hadm, hrun⟩, hq⟩ := hs
  cases e with
  | tick t =>
    obtain rfl := Option.some.inj hrun
    have hnow := h.now
    exact { h with now := by have hle : x.now ≤ t := hadm; dsimp only; omega }
  | probe env d group =>
    obtain ⟨calls, hcalls, rfl⟩ := Option.map_eq_some_iff.mp hrun
    exact h.probe group ⟨hadm, hcalls⟩
  | call op =>
    obtain ⟨calls, hcalls, rfl⟩ := Option.map_eq_some_iff.mp hrun
    exact h.call ⟨hadm.1, hcalls⟩ hq
  | job i a =>
    obtain ⟨c, hc, rfl⟩ := Option.map_eq_some_iff.mp hrun
    exact h.job_step hadm hc
  | getDevStatus reqRate =>
    obtain rfl := Option.some.inj hrun
    exact h.getDevStatus _ reqRate

abbrev SlotReaches (jobs : Jobs) (x : Slots n) : Prop := Reachable SlotStart (SlotStep jobs) x

/-- Runs in which every core that goes is quiet. -/
abbrev QuietReaches (jobs : Jobs) (x : Slots n) : Prop :=
  Reachable SlotStart (restrict (SlotStep jobs) Quiet) x

theorem QuietReaches.linked (h : QuietReaches jobs x) : Linked x :=
  h.invariant (fun _ h0 => Linked.start h0) fun _ _ _ hx hs => hx.step hs

theorem QuietReaches.slotReaches (h : QuietReaches jobs x) : SlotReaches jobs x := by
  induction h with
  | start h0 => exact .start h0
  | step _ hs ih => exact ih.step hs.1

theorem inStep_of_quiet (h : QuietReaches jobs x) : x.InStep := h.linked.inStep

/-- The condition is needed: the counter of a core that goes with a job in flight stays
busy. -/
theorem Linked.not_inStep (h : Linked x) {core : CorePtr} {d : Fin n} {calls : Calls n}
    (hphase : x.calls.phase = .finished core d) (hi : core.idx < rocketDfMaxNb)
    (hjob : (x.cores core.idx).inFlightJob.isSome)
    (hrun : CallOp.unbind.run x.calls = some calls) : ¬ Slots.InStep { x with calls } := by
  intro hstep
  have hbusy : x.counters.start core.idx ≠ 0 := by
    rw [h.flag _ hi, h.job _ hi]
    exact hjob
  have hbound : (calls.s.cores core.idx).isSome := ((hstep core.idx hi).mp hbusy).1
  have hgone : calls.s.cores core.idx = none := by
    simp only [CallOp.run, hphase, Option.some.injEq] at hrun
    subst hrun
    show (unbindSlot core.idx x.calls.s).cores core.idx = none
    unfold unbindSlot
    dsimp only
    split_ifs
    · rfl
    · simp [State.setDev]
  simp [hgone] at hbound

/-- A core that is bound takes steps of the job path. -/
theorem QuietReaches.acts {i : ℕ} {as : List Act} {c : Core} (h : QuietReaches jobs x)
    (hb : (x.calls.s.cores i).isSome) (hc : as.foldlM (Core.step jobs) (x.cores i) = some c) :
    ∃ y : Slots n, QuietReaches jobs y ∧ y.calls = x.calls ∧ y.cores i = c := by
  induction as generalizing x with
  | nil => exact ⟨x, h, rfl, by simpa using hc⟩
  | cons a as ih =>
    rw [List.foldlM_cons] at hc
    obtain ⟨c', hc', hc⟩ := Option.bind_eq_some_iff.mp hc
    have hstep := h.step (e := SlotOp.job i a) ⟨⟨hb, Option.map_eq_some_iff.mpr ⟨c', hc', rfl⟩⟩,
      trivial⟩
    obtain ⟨y, hy, hcalls, hcore⟩ := ih hstep hb (by simpa using hc)
    exact ⟨y, hy, hcalls, hcore⟩

/-- One core that has been probed. -/
def oneCore : Calls 1 :=
  ⟨(beginProbe (.smooth 0) ⟨0, Nat.one_pos⟩ (.load rocketSafeRate 0)).endProbe
    (ProbeEnv.smooth 0).init, .idle⟩

theorem oneCore_started :
    ∃ x : Slots 1, QuietReaches oneTask x ∧ x.calls = oneCore ∧
      (x.cores 0).inFlightJob = some 0 := by
  have h0 : QuietReaches oneTask
      (⟨⟨.load rocketSafeRate 0, .idle⟩, fun _ => Core.init, .load, 1⟩ : Slots 1) :=
    .start ⟨⟨_, _, rfl⟩, rfl, rfl, Nat.one_ne_zero⟩
  have h1 := h0.step (e := SlotOp.probe (.smooth 0) 0 none)
    ⟨⟨by simp [SlotOp.Admissible, CallOp.Admissible, State.load], rfl⟩, trivial⟩
  have h2 := h1.step (e := SlotOp.call (.init (ProbeEnv.smooth 0).init))
    ⟨⟨⟨trivial, fun _ _ h => by cases h⟩, rfl⟩, trivial⟩
  have hend : (startJob.foldlM (Core.step oneTask)
      (initCore none (allocCore Core.init))).map Core.inFlightJob = some (some 0) := rfl
  obtain ⟨c, hc, hjob⟩ := Option.map_eq_some_iff.mp hend
  obtain ⟨x, hx, hcalls, hcore⟩ := QuietReaches.acts (i := 0) h2 rfl hc
  exact ⟨x, hx, hcalls, hcore ▸ hjob⟩

theorem inStep_started :
    ∃ x : Slots 1, x.InStep ∧ x.counters.start 0 ≠ 0 ∧ (x.cores 0).inFlightJob = some 0 := by
  obtain ⟨x, hx, hcalls, hjob⟩ := oneCore_started
  have hstep := inStep_of_quiet hx
  refine ⟨x, hstep, (hstep 0 (by decide)).mpr ⟨?_, by simp [hjob]⟩, hjob⟩
  rw [hcalls]
  rfl

/-- The only core is unbound with its job in flight. -/
theorem not_inStep :
    ∃ x : Slots 1, SlotReaches oneTask x ∧ x.calls.phase = .idle ∧ ¬ x.InStep := by
  obtain ⟨x, hx, hcalls, hjob⟩ := oneCore_started
  let env : FiniEnv 1 := ⟨.ok, false, fun _ => none, fun _ => none⟩
  let removed : Calls 1 :=
    ⟨rocketDevfreqCoreRemoved .ok none ⟨0, 0⟩ 0 oneCore.s, .coreRemoved ⟨0, 0⟩ 0⟩
  let finished : Calls 1 := ⟨rocketDevfreqFini env ⟨0, 0⟩ removed.s, .finished ⟨0, 0⟩ 0⟩
  have h1 : QuietReaches oneTask { x with calls := removed } :=
    hx.step (e := SlotOp.call (.coreRemoved .ok none 0))
      ⟨⟨⟨trivial, fun _ _ h => by cases h⟩, by simp only [SlotOp.run, hcalls]; rfl⟩, trivial⟩
  have h2 : QuietReaches oneTask { x with calls := finished } :=
    h1.step (e := SlotOp.call (.fini env))
      ⟨⟨⟨trivial, fun _ _ h => by cases h⟩, rfl⟩, trivial⟩
  let gone : Calls 1 := ⟨unbindSlot 0 finished.s, .idle⟩
  have h3 : SlotReaches oneTask { x with calls := gone } :=
    h2.slotReaches.step (e := SlotOp.call .unbind)
      ⟨⟨trivial, fun _ _ h => by cases h⟩, rfl⟩
  refine ⟨{ x with calls := gone }, h3, rfl, ?_⟩
  exact h2.linked.not_inStep rfl (by decide) (by simp [hjob]) rfl

end RocketNpu.Busy
