import RocketNpu.Volt.Probe
import RocketNpu.Devfreq.Boost
import RocketNpu.Devfreq.System

namespace RocketNpu.Devfreq

variable {n : ℕ}

/-- The component next to the module that moves its rail; `none` while that is unloaded. -/
structure Rig (n : ℕ) where
  s : State n
  probe : Option Volt.Probe

/-- The calls and events a voltage history is made of; `other` is any other consumer. -/
inductive RailOp (n : ℕ) where
  | target (env : TargetEnv n) (opp : Except Errno ℕ)
  | notify (clk : ClkReply) (stale : Option (Fin n)) (i : ℕ) (action : GenpdAction)
  | insmod (env : Volt.Env) (uv : ℤ)
  | rmmod (env : Volt.Env)
  | other (rail : ℤ)

def Rig.setRail (x : Rig n) (rail : ℤ) : Rig n := { x with s.rail := rail }

/-- A module whose init fails is not loaded. -/
def loadProbe (env : Volt.Env) (uv : ℤ) (x : Rig n) : Rig n :=
  match Volt.npuVoltProbeInit env uv x.s.rail with
  | (ret, p, rail) => { x.setRail rail with probe := if ret = 0 then some p else none }

def RailOp.run : RailOp n → Rig n → Rig n
  | .target env opp, x => { x with s := (rocketDevfreqTarget env opp x.s).2 }
  | .notify clk stale i action, x => { x with s := (rocketDfNotify clk stale i action x.s).2 }
  | .insmod env uv, x => if x.probe.isSome then x else loadProbe env uv x
  | .rmmod env, x =>
    match x.probe with
    | none => x
    | some p => { x.setRail (Volt.npuVoltProbeExit env p x.s.rail) with probe := none }
  | .other rail, x => x.setRail rail

/-- Each operation of a run, with the state it is made in. -/
def made : Rig n → List (RailOp n) → List (Rig n × RailOp n)
  | _, [] => []
  | x, op :: ops => (x, op) :: made (op.run x) ops

/-- A call that returns 0 for a rate above `rocketHighRate` is made while the rail reads
high enough. -/
def Checked (x : Rig n) (op : RailOp n) : Prop :=
  ∀ env freq got, op = .target env (.ok freq) → rocketHighRate < freq →
    (rocketDevfreqTarget env (.ok freq) x.s).1 = .ok got →
    x.s.df.reg = true ∧ rocketVoltForHigh ≤ x.s.rail

/-- A call for the high rate that is already set, while the rail does not read high
enough for it. -/
def StaleRepeat (x : Rig n) (op : RailOp n) : Prop :=
  ∃ env freq, op = .target env (.ok freq) ∧ rocketHighRate < freq ∧
    x.s.df.core.isSome ∧ EarlyExit freq x.s ∧ railReading x.s < rocketVoltForHigh

theorem railReading_high {s : State n} :
    rocketVoltForHigh ≤ railReading s ↔ s.df.reg = true ∧ rocketVoltForHigh ≤ s.rail := by
  unfold railReading
  cases s.df.reg with
  | true => simp
  | false => simp [rocketVoltForHigh]

/-- A target call returns 0 by the early exit or past the voltage check. -/
theorem targetLocked_ok {env : TargetEnv n} {freq got : ℕ} {s : State n}
    (h : (targetLocked env freq s).1 = .ok got) :
    s.df.core.isSome ∧
      (EarlyExit freq s ∨ (rocketHighRate < freq → rocketVoltForHigh ≤ railReading s)) := by
  unfold targetLocked at h
  split_ifs at h with h1 h2 h3 h4
  · exact ⟨Option.isSome_iff_ne_none.mpr h1, .inl h2⟩
  · refine ⟨Option.isSome_iff_ne_none.mpr h1, .inr fun hf => ?_⟩
    by_contra hv
    exact h4 ⟨hf, not_le.mp hv⟩

theorem targetLocked_early {env : TargetEnv n} {freq : ℕ} {s : State n}
    (hc : s.df.core.isSome) (he : EarlyExit freq s) :
    targetLocked env freq s = (.ok freq, s) := by
  have hne : s.df.core ≠ none := Option.isSome_iff_ne_none.mp hc
  simp only [targetLocked, hne, he, if_false, if_true]

/-- One operation breaks the voltage rule exactly when it is a stale repeat. -/
theorem checked_iff (x : Rig n) (op : RailOp n) : Checked x op ↔ ¬ StaleRepeat x op := by
  constructor
  -- the repeat leaves through the early exit and returns 0
  · rintro h ⟨env, freq, rfl, hf, hc, he, hlow⟩
    have hok : (rocketDevfreqTarget env (.ok freq) x.s).1 = .ok freq :=
      congrArg Prod.fst (targetLocked_early hc he)
    have hhigh := railReading_high.mpr (h env freq freq rfl hf hok)
    omega
  · intro h env freq got hop hf hok
    obtain ⟨hc, he | hv⟩ := targetLocked_ok (show (targetLocked env freq x.s).1 = _ from hok)
    · rw [← railReading_high]
      by_contra hlow
      exact h ⟨env, freq, hop, hf, hc, he, not_le.mp hlow⟩
    · exact railReading_high.mp (hv hf)

/-- In a run every call that returns 0 for a high rate saw a high enough rail, if and only
if no call of the run repeats the rate already set while the rail is too low. -/
theorem run_checked_iff (x : Rig n) (ops : List (RailOp n)) :
    (∀ c ∈ made x ops, Checked c.1 c.2) ↔ ∀ c ∈ made x ops, ¬ StaleRepeat c.1 c.2 :=
  forall₂_congr fun c _ => checked_iff c.1 c.2

/-- A rail that takes every voltage asked for. -/
def exactRail : Volt.Env := ⟨true, true, none, fun uv _ => (0, uv)⟩

def railDown : Rig 1 :=
  ⟨(Op.probe (.smooth 0) (Fin.last 0)).run (.load rocketSafeRate 800000), none⟩

/-- The rail is raised, the high rate set, and the rail lowered again. -/
def railUpAndDown : List (RailOp 1) :=
  [.insmod exactRail 850000, .target .smooth (.ok 900000000), .rmmod exactRail]

theorem not_checked :
    ¬ ∀ c ∈ made railDown (railUpAndDown ++ [.target .smooth (.ok 900000000)]),
      Checked c.1 c.2 := by
  intro h
  have hlast := h (railUpAndDown.foldl (fun x op => op.run x) railDown,
    .target .smooth (.ok 900000000)) (by simp [made, railUpAndDown])
  have hrail := (hlast .smooth 900000000 900000000 rfl (by decide) rfl).2
  exact absurd hrail (by decide)

end RocketNpu.Devfreq
