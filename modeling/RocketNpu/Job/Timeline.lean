import Mathlib.Data.List.Pairwise
import RocketNpu.Job.Freeing

namespace RocketNpu.Job
open Runs

/-- A fence of a core's context. It is the `nth` that was made, which its number tells only while
the counter has not wrapped. -/
structure Fence where
  nth : ℕ
  seqno : BitVec 64
deriving DecidableEq, Repr

/-- A core and the fences of its context. -/
structure Timeline where
  core : Core
  emitSeqno : BitVec 64
  /-- How many fences were made. -/
  made : ℕ
  /-- `job->done_fence`. -/
  doneFence : ℕ → Option Fence
  /-- The fences signalled, latest first. -/
  signalled : List Fence
  /-- The fences `rocket_job_run` put because the job had one already. -/
  replaced : List Fence

def Timeline.init : Timeline := ⟨.init, 0, 0, fun _ => none, [], []⟩

/-- `rocket_fence_create`, and the new fence stored in the job. -/
def rocketFenceCreate (j : ℕ) (t : Timeline) : Timeline :=
  { t with
    emitSeqno := t.emitSeqno + 1
    made := t.made + 1
    doneFence := Function.update t.doneFence j (some ⟨t.made + 1, t.emitSeqno + 1⟩)
    replaced := (t.doneFence j).toList ++ t.replaced }

/-- `dma_fence_signal(job->done_fence)`, which does nothing without a fence. -/
def dmaFenceSignal (j : ℕ) (t : Timeline) : Timeline :=
  { t with signalled := (t.doneFence j).toList ++ t.signalled }

/-- What a step does to the fences; a job that is not started gets none. -/
def Timeline.fences (t : Timeline) (c : Core) : Act → Timeline
  | .schedule j _ => if c.run = .fenced j then rocketFenceCreate j t else t
  | .irq =>
    match t.core.irq with
    | .detached j => dmaFenceSignal j t
    | _ => t
  | _ => t

variable (jobs : Jobs)

def Timeline.step (t : Timeline) (a : Act) : Option Timeline :=
  (t.core.step jobs a).map fun c => { t.fences c a with core := c }

def TimelineStep (t : Timeline) (a : Act) (t' : Timeline) : Prop := t.step jobs a = some t'

variable {jobs} {c c' : Core} {t t' : Timeline}

/-- The job in the scheduler's hands has the latest fence, and that one is not signalled. -/
structure InSequence (jobs : Jobs) (t : Timeline) : Prop where
  wf : Wf jobs t.core
  seqno : t.emitSeqno = BitVec.ofNat 64 t.made
  untaken : ∀ j, t.core.taken j = false → t.doneFence j = none
  current : ∀ j, t.core.current = some j →
    t.doneFence j = some ⟨t.made, t.emitSeqno⟩ ∧ ∀ f ∈ t.signalled, f.nth < t.made
  emitted : ∀ f ∈ t.signalled, f.nth ≤ t.made ∧ f.seqno = BitVec.ofNat 64 f.nth
  sorted : t.signalled.Pairwise fun f g => g.nth < f.nth
  replaced : t.replaced = []

theorem InSequence.init : InSequence jobs .init where
  wf := ⟨Locks.init, Sched.init⟩
  seqno := rfl
  untaken _ _ := rfl
  current _ h := by cases h
  emitted _ h := by cases h
  sorted := .nil
  replaced := rfl

/-- Steps that neither make nor signal a fence. -/
theorem InSequence.core (h : InSequence jobs t) (hw : Wf jobs c)
    (htaken : ∀ j, c.taken j = false → t.core.taken j = false)
    (hcurrent : ∀ j, c.current = some j → t.core.current = some j) :
    InSequence jobs { t with core := c } where
  wf := hw
  seqno := h.seqno
  untaken j hj := h.untaken j (htaken j hj)
  current j hj := h.current j (hcurrent j hj)
  emitted := h.emitted
  sorted := h.sorted
  replaced := h.replaced

theorem InSequence.create (h : InSequence jobs t) {j : ℕ} (hnew : t.core.taken j = false)
    (hw : Wf jobs c) (htaken : c.taken = Function.update t.core.taken j true)
    (hcurrent : c.current = some j) :
    InSequence jobs { rocketFenceCreate j t with core := c } where
  wf := hw
  seqno := by simp [rocketFenceCreate, h.seqno, BitVec.ofNat_add]
  untaken i hi := by
    have hi : i ≠ j ∧ t.core.taken i = false := by
      rw [htaken] at hi
      exact (Sched.taken_update j i _).mp hi
    simpa [rocketFenceCreate, hi.1] using h.untaken i hi.2
  current i hi := by
    obtain rfl : j = i := by simpa [hcurrent] using hi
    refine ⟨by simp [rocketFenceCreate], fun f hf => ?_⟩
    exact Nat.lt_succ_of_le (h.emitted f hf).1
  emitted f hf := ⟨Nat.le_succ_of_le (h.emitted f hf).1, (h.emitted f hf).2⟩
  sorted := h.sorted
  replaced := by simp [rocketFenceCreate, h.untaken j hnew, h.replaced]

theorem InSequence.signal (h : InSequence jobs t) {j : ℕ} (hj : t.core.current = some j)
    (hw : Wf jobs c) (htaken : c.taken = t.core.taken) (hcurrent : c.current = none) :
    InSequence jobs { dmaFenceSignal j t with core := c } := by
  obtain ⟨hfence, hlt⟩ := h.current j hj
  have hsignalled :
      (dmaFenceSignal j t).signalled = ⟨t.made, t.emitSeqno⟩ :: t.signalled := by
    simp [dmaFenceSignal, hfence]
  refine ⟨hw, h.seqno, fun i hi => h.untaken i (htaken ▸ hi), fun i hi => ?_, ?_, ?_, h.replaced⟩
  · simp [hcurrent] at hi
  · intro f hf
    rcases List.mem_cons.mp (hsignalled ▸ hf) with rfl | hf
    · exact ⟨Nat.le_refl _, h.seqno⟩
    · exact h.emitted f hf
  · show (dmaFenceSignal j t).signalled.Pairwise fun f g => g.nth < f.nth
    rw [hsignalled]
    exact List.pairwise_cons.mpr ⟨hlt, h.sorted⟩

theorem InSequence.quiet (h : InSequence jobs t) {a : Act} (hs : Step jobs t.core a c)
    (ha : ∀ j fail, a ≠ .schedule j fail) : InSequence jobs { t with core := c } := by
  have hm (j : ℕ) := hs.move.scheduler j (ha j)
  exact h.core (h.wf.step hs) (fun j hj => (hm j).2 ▸ hj) fun j => (hm j).1

/-- The IRQ thread signals the fence of the job in the scheduler's hands. -/
theorem InSequence.current_of_detached (h : InSequence jobs t) {j : ℕ}
    (hi : t.core.irq = .detached j) : t.core.current = some j :=
  h.wf.current_of_touches (a := .irq) (by simp [Core.touches, hi]) (by simp) (by simp)

theorem Step.of_detached {j : ℕ} (hs : Step jobs c .irq c') (hi : c.irq = .detached j)
    (hj : c.current = some j) : c'.taken = c.taken ∧ c'.current = none := by
  simp only [Step, Core.step, rocketJobHandleIrq, hi, hj, if_true, Option.some.injEq] at hs
  subst hs
  exact ⟨rfl, rfl⟩

theorem InSequence.step {a : Act} (h : InSequence jobs t) (hs : TimelineStep jobs t a t') :
    InSequence jobs t' := by
  obtain ⟨c, hc, rfl⟩ := Option.map_eq_some_iff.mp hs
  have hw : Wf jobs c := h.wf.step hc
  cases a with
  | schedule j fail =>
    cases Step.move hc with
    | dropped hidle _ _ _ =>
      have hsame : t.fences { t.core with taken := Function.update t.core.taken j true }
          (.schedule j fail) = t := by simp [Timeline.fences, hidle]
      rw [hsame]
      exact h.core hw (fun i hi => ((Sched.taken_update j i _).mp hi).2) fun _ hi => hi
    | scheduled _ _ _ hnew _ =>
      simp only [Timeline.fences, if_true]
      exact h.create hnew hw rfl rfl
  | irq =>
    cases hi : t.core.irq with
    | detached j =>
      have hj := h.current_of_detached hi
      obtain ⟨htaken, hcurrent⟩ := Step.of_detached hc hi hj
      simp only [Timeline.fences, hi]
      exact h.signal hj hw htaken hcurrent
    | _ =>
      simp only [Timeline.fences, hi]
      exact h.quiet hc (by simp)
  | _ => exact h.quiet hc (by simp)

end RocketNpu.Job
