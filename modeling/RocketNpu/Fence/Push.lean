import Mathlib.Data.Nat.Notation
import Mathlib.Logic.Function.Basic
import Mathlib.Tactic.Simps.Basic
import RocketNpu.Lib.Runs

namespace RocketNpu.Fence
open Runs

/-- What the submit of a job names: the file, which is the scheduler entity, and the BOs. -/
structure Spec where
  file : ℕ
  ins : List ℕ
  outs : List ℕ
deriving DecidableEq, Repr

def Spec.bos (j : Spec) : List ℕ := j.ins ++ j.outs

/-- `DMA_RESV_USAGE_WRITE` and `DMA_RESV_USAGE_READ`. -/
inductive Usage where
  | write | read
deriving DecidableEq, Repr

/-- The fences that a wait up to `usage` waits for, by the jobs they stand for. -/
def waitedFor (usage : Usage) (fences : List (ℕ × Usage)) : List ℕ :=
  (fences.filter fun f => f.2 = .write ∨ usage = .read).map Prod.fst

/-- `dma_resv_usage_rw`. -/
def usageRw (isWrite : Bool) : Usage := if isWrite then .read else .write

/-- Where `rocket_job_push` stands for a job. -/
inductive PushPc where
  | called
  /-- The reservations are locked. -/
  | locked
  /-- In the section under `sched_lock`, with the BOs still to go through and `is_write`. -/
  | acquiring (todo : List (ℕ × Bool))
  /-- The job is pushed, and its fence is still to be added to these BOs. -/
  | attaching (todo : List ℕ)
  /-- At `err_unlock`. -/
  | leaving
  | returned
deriving DecidableEq, Repr

/-- The pushes of all clients, the reservation objects and the scheduler. -/
structure Sys where
  /-- Which push holds the reservation lock of a BO. -/
  resvLock : ℕ → Option ℕ
  schedLock : Option ℕ
  pc : ℕ → PushPc
  deps : ℕ → List ℕ
  resv : ℕ → List (ℕ × Usage)
  /-- The jobs handed to `drm_sched_entity_push_job`, latest first. -/
  pushed : List ℕ
  /-- The place of a pushed job in the order of pushes. -/
  seq : ℕ → ℕ
  started : ℕ → Bool
  /-- The `finished` fence has signalled. -/
  finished : ℕ → Bool

def Sys.init : Sys where
  resvLock _ := none
  schedLock := none
  pc _ := .called
  deps _ := []
  resv _ := []
  pushed := []
  seq _ := 0
  started _ := false
  finished _ := false

@[simps] def Sys.goto (s : Sys) (j : ℕ) (p : PushPc) : Sys :=
  { s with pc := Function.update s.pc j p }

variable (jobs : ℕ → Spec)

/-- `drm_gem_lock_reservations`: all the locks, or with an error none. -/
def lockReservations (j : ℕ) (ok : Bool) (s : Sys) : Option Sys :=
  match s.pc j, ok with
  | .called, false => some (s.goto j .returned)
  | .called, true =>
    if ∀ b ∈ (jobs j).bos, s.resvLock b = none then
      some ({ s with
        resvLock := fun b => if b ∈ (jobs j).bos then some j else s.resvLock b }.goto j .locked)
    else none
  | _, _ => none

/-- `sched_lock` is taken and the job armed. The two calls of `rocket_acquire_object_fences`
go through the inputs first. -/
def enterSection (j : ℕ) (s : Sys) : Option Sys :=
  match s.pc j, s.schedLock with
  | .locked, none =>
    let todo := (jobs j).ins.map (fun b => (b, false)) ++ (jobs j).outs.map fun b => (b, true)
    some ({ s with schedLock := some j }.goto j (.acquiring todo))
  | _, _ => none

/-- One round of `rocket_acquire_object_fences`. With `fail` it breaks off after that many
dependencies, and leaves the section. -/
def acquireObjectFences (j : ℕ) (fail : Option ℕ) (s : Sys) : Option Sys :=
  match s.pc j, fail with
  | .acquiring ((b, isWrite) :: todo), none =>
    let found := waitedFor (usageRw isWrite) (s.resv b)
    some ({ s with deps := Function.update s.deps j (found ++ s.deps j) }.goto j
      (.acquiring todo))
  | .acquiring ((b, isWrite) :: _), some k =>
    let found := (waitedFor (usageRw isWrite) (s.resv b)).take k
    some ({ s with
      deps := Function.update s.deps j (found ++ s.deps j)
      schedLock := none }.goto j .leaving)
  | _, _ => none

/-- `drm_sched_entity_push_job`, and the end of the section. -/
def pushJob (j : ℕ) (s : Sys) : Option Sys :=
  match s.pc j with
  | .acquiring [] =>
    some ({ s with
      pushed := j :: s.pushed
      seq := Function.update s.seq j (s.pushed.length + 1)
      schedLock := none }.goto j (.attaching (jobs j).outs))
  | _ => none

/-- `dma_resv_add_fence` with `DMA_RESV_USAGE_WRITE`. The first fence that is signalled, or an
earlier one of the same entity, makes room. -/
def addFence (s : Sys) (j : ℕ) : List (ℕ × Usage) → List (ℕ × Usage)
  | [] => [(j, .write)]
  | (k, u) :: fences =>
    if s.finished k ∨ (jobs k).file = (jobs j).file ∧ s.seq k ≤ s.seq j then
      (j, .write) :: fences
    else (k, u) :: addFence s j fences

/-- One round of `rocket_attach_object_fences`. -/
def attachObjectFences (j : ℕ) (s : Sys) : Option Sys :=
  match s.pc j with
  | .attaching [] => some (s.goto j .leaving)
  | .attaching (b :: todo) =>
    some ({ s with resv := Function.update s.resv b (addFence jobs s j (s.resv b)) }.goto j
      (.attaching todo))
  | _ => none

/-- `drm_gem_unlock_reservations`. -/
def unlockReservations (j : ℕ) (s : Sys) : Option Sys :=
  match s.pc j with
  | .leaving =>
    some ({ s with
      resvLock := fun b => if b ∈ (jobs j).bos then none else s.resvLock b }.goto j .returned)
  | _ => none

/-- `drm_sched` starts a pushed job after its dependencies and the earlier jobs of its
entity. -/
def Ready (s : Sys) (j : ℕ) : Prop :=
  (∀ d ∈ s.deps j, s.finished d = true) ∧
    ∀ k ∈ s.pushed, (jobs k).file = (jobs j).file → s.seq k < s.seq j → s.finished k = true

instance (s : Sys) (j : ℕ) : Decidable (Ready jobs s j) :=
  inferInstanceAs (Decidable (_ ∧ _))

def startJob (j : ℕ) (s : Sys) : Option Sys :=
  if j ∈ s.pushed ∧ s.started j = false ∧ Ready jobs s j then
    some { s with started := Function.update s.started j true }
  else none

def finishJob (j : ℕ) (s : Sys) : Option Sys :=
  if s.started j then some { s with finished := Function.update s.finished j true } else none

/-- The check at which `dma_resv_wait_timeout` in `rocket_ioctl_prep_bo` succeeds. -/
def prepBo (b : ℕ) (s : Sys) : Option Sys :=
  if ∀ k ∈ waitedFor .write (s.resv b), s.finished k then some s else none

inductive Act where
  | lock (j : ℕ) (ok : Bool)
  | enter (j : ℕ)
  | acquire (j : ℕ) (fail : Option ℕ)
  | push (j : ℕ)
  | attach (j : ℕ)
  | unlock (j : ℕ)
  | start (j : ℕ)
  | finish (j : ℕ)
  | prepBo (b : ℕ)
deriving DecidableEq, Repr

def Act.run (e : Act) (s : Sys) : Option Sys :=
  match e with
  | .lock j ok => lockReservations jobs j ok s
  | .enter j => enterSection jobs j s
  | .acquire j fail => acquireObjectFences j fail s
  | .push j => pushJob jobs j s
  | .attach j => attachObjectFences jobs j s
  | .unlock j => unlockReservations jobs j s
  | .start j => startJob jobs j s
  | .finish j => finishJob j s
  | .prepBo b => Fence.prepBo b s

def Step (s : Sys) (e : Act) (t : Sys) : Prop := e.run jobs s = some t

abbrev Reaches (s : Sys) : Prop := Reachable (· = Sys.init) (Step jobs) s

theorem pc_cases {f : ℕ → PushPc} {i j : ℕ} {p q : PushPc} (h : Function.update f j p i = q) :
    i = j ∧ p = q ∨ i ≠ j ∧ f i = q := by
  by_cases hij : i = j
  · subst hij
    exact .inl ⟨rfl, by simpa using h⟩
  · exact .inr ⟨hij, by simpa [hij] using h⟩

/-- What one step does. -/
inductive Move (s : Sys) : Act → Sys → Prop where
  | lockFailed {j : ℕ} : s.pc j = .called → Move s (.lock j false) (s.goto j .returned)
  | locked {j : ℕ} : s.pc j = .called → (∀ b ∈ (jobs j).bos, s.resvLock b = none) →
      Move s (.lock j true) ({ s with
        resvLock := fun b => if b ∈ (jobs j).bos then some j else s.resvLock b }.goto j .locked)
  | entered {j : ℕ} : s.pc j = .locked → s.schedLock = none →
      Move s (.enter j) ({ s with schedLock := some j }.goto j (.acquiring
        ((jobs j).ins.map (fun b => (b, false)) ++ (jobs j).outs.map fun b => (b, true))))
  | acquired {j b : ℕ} {isWrite : Bool} {todo : List (ℕ × Bool)} :
      s.pc j = .acquiring ((b, isWrite) :: todo) →
      Move s (.acquire j none) ({ s with
        deps := Function.update s.deps j
          (waitedFor (usageRw isWrite) (s.resv b) ++ s.deps j) }.goto j (.acquiring todo))
  | acquireFailed {j b k : ℕ} {isWrite : Bool} {todo : List (ℕ × Bool)} :
      s.pc j = .acquiring ((b, isWrite) :: todo) →
      Move s (.acquire j (some k)) ({ s with
        deps := Function.update s.deps j
          ((waitedFor (usageRw isWrite) (s.resv b)).take k ++ s.deps j)
        schedLock := none }.goto j .leaving)
  | pushed {j : ℕ} : s.pc j = .acquiring [] →
      Move s (.push j) ({ s with
        pushed := j :: s.pushed
        seq := Function.update s.seq j (s.pushed.length + 1)
        schedLock := none }.goto j (.attaching (jobs j).outs))
  | attachedAll {j : ℕ} : s.pc j = .attaching [] → Move s (.attach j) (s.goto j .leaving)
  | attached {j b : ℕ} {todo : List ℕ} : s.pc j = .attaching (b :: todo) →
      Move s (.attach j) ({ s with
        resv := Function.update s.resv b (addFence jobs s j (s.resv b)) }.goto j
          (.attaching todo))
  | unlocked {j : ℕ} : s.pc j = .leaving →
      Move s (.unlock j) ({ s with
        resvLock := fun b => if b ∈ (jobs j).bos then none else s.resvLock b }.goto j .returned)
  | started {j : ℕ} : j ∈ s.pushed → s.started j = false → Ready jobs s j →
      Move s (.start j) { s with started := Function.update s.started j true }
  | finished {j : ℕ} : s.started j = true →
      Move s (.finish j) { s with finished := Function.update s.finished j true }
  | prepared {b : ℕ} : (∀ k ∈ waitedFor .write (s.resv b), s.finished k = true) →
      Move s (.prepBo b) s

variable {jobs} {s t : Sys}

theorem Step.move {e : Act} (h : Step jobs s e t) : Move jobs s e t := by
  unfold Step Act.run at h
  cases e with
  | lock j ok =>
    dsimp only at h
    unfold lockReservations at h
    split at h
    · next hpc =>
      cases h
      exact .lockFailed hpc
    · next hpc =>
      split_ifs at h with hfree
      cases h
      exact .locked hpc hfree
    · cases h
  | enter j =>
    dsimp only at h
    unfold enterSection at h
    split at h
    · next hpc hlock =>
      cases h
      exact .entered hpc hlock
    · cases h
  | acquire j fail =>
    dsimp only at h
    unfold acquireObjectFences at h
    split at h
    · next hpc =>
      cases h
      exact .acquired hpc
    · next hpc =>
      cases h
      exact .acquireFailed hpc
    · cases h
  | push j =>
    dsimp only at h
    unfold pushJob at h
    split at h
    · next hpc =>
      cases h
      exact .pushed hpc
    · cases h
  | attach j =>
    dsimp only at h
    unfold attachObjectFences at h
    split at h
    · next hpc =>
      cases h
      exact .attachedAll hpc
    · next hpc =>
      cases h
      exact .attached hpc
    · cases h
  | unlock j =>
    dsimp only at h
    unfold unlockReservations at h
    split at h
    · next hpc =>
      cases h
      exact .unlocked hpc
    · cases h
  | start j =>
    simp only [startJob, Option.ite_none_right_eq_some, Option.some.injEq] at h
    obtain ⟨⟨hpushed, hnew, hready⟩, rfl⟩ := h
    exact .started hpushed hnew hready
  | finish j =>
    simp only [finishJob, Option.ite_none_right_eq_some, Option.some.injEq] at h
    obtain ⟨hstarted, rfl⟩ := h
    exact .finished hstarted
  | prepBo b =>
    simp only [Fence.prepBo, Option.ite_none_right_eq_some, Option.some.injEq] at h
    obtain ⟨hdone, rfl⟩ := h
    exact .prepared hdone

end RocketNpu.Fence
