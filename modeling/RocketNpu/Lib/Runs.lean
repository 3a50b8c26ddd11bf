import Mathlib.Data.List.Basic
import Mathlib.Logic.Function.Iterate
import Mathlib.Tactic.TypeStar

namespace RocketNpu.Runs

variable {σ ε : Type*} {init : σ → Prop} {step : σ → ε → σ → Prop}

/-- The states some finite sequence of steps leads to from a start state. -/
inductive Reachable (init : σ → Prop) (step : σ → ε → σ → Prop) : σ → Prop where
  | start {s : σ} : init s → Reachable init step s
  | step {s t : σ} {e : ε} : Reachable init step s → step s e t → Reachable init step t

/-- The steps of `step` that meet the condition `C` in the state they are taken in. -/
def restrict (step : σ → ε → σ → Prop) (C : σ → ε → Prop) : σ → ε → σ → Prop :=
  fun s e t => step s e t ∧ C s e

theorem Reachable.invariant {I : σ → Prop} (hinit : ∀ s, init s → I s)
    (hstep : ∀ s e t, I s → step s e t → I t) {s : σ} (h : Reachable init step s) : I s := by
  induction h with
  | start h0 => exact hinit _ h0
  | step _ hs ih => exact hstep _ _ _ ih hs

theorem Reachable.of_restrict {C : σ → ε → Prop} {s : σ}
    (h : Reachable init (restrict step C) s) : Reachable init step s := by
  induction h with
  | start h0 => exact .start h0
  | step _ hs ih => exact .step ih hs.1

theorem Reachable.trans {s t : σ} (h : Reachable init step s) (k : Reachable (· = s) step t) :
    Reachable init step t := by
  induction k with
  | start heq => exact heq ▸ h
  | step _ hs ih => exact .step ih hs

theorem Reachable.iterate {f : σ → σ} {e : ε} (hf : ∀ s, step s e (f s)) {s : σ}
    (h : Reachable init step s) (k : ℕ) : Reachable init step (f^[k] s) := by
  induction k with
  | zero => exact h
  | succ k ih =>
    rw [Function.iterate_succ_apply']
    exact .step ih (hf _)

/-- A run of a step function that may refuse. -/
theorem Reachable.foldlM {f : σ → ε → Option σ} (hf : ∀ s e t, f s e = some t → step s e t)
    {s t : σ} (h : Reachable init step s) {es : List ε} (ht : es.foldlM f s = some t) :
    Reachable init step t := by
  induction es generalizing s with
  | nil =>
    obtain rfl : s = t := by simpa using ht
    exact h
  | cons e es ih =>
    rw [List.foldlM_cons] at ht
    obtain ⟨u, hu, ht⟩ := Option.bind_eq_some_iff.mp ht
    exact ih (.step h (hf s e u hu)) ht

end RocketNpu.Runs
