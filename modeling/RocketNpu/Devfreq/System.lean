import RocketNpu.Lib.Runs
import RocketNpu.Devfreq.Frames

namespace RocketNpu.Devfreq
open Runs

variable {n : ℕ}

/-- The completed calls the component's state moves by, each with what it depends on
outside, and the changes of the rail by its other consumers. -/
inductive Op (n : ℕ) where
  | probe (env : ProbeEnv n) (d : Fin n)
  | remove (env : RemoveEnv n) (d : Fin n)
  | target (env : TargetEnv n) (opp : Except Errno ℕ)
  | notify (clk : ClkReply) (stale : Option (Fin n)) (i : ℕ) (action : GenpdAction)
  | genpd (env : SwitchEnv n) (d : Fin n) (up : Bool)
  | suspend (clk : ClkReply) (d : Fin n)
  | rail (uv : ℤ)

/-- The driver core attaches the device to its domain, with fresh genpd data, and probes. -/
def attachAndProbe (env : ProbeEnv n) (d : Fin n) (s : State n) : Except Errno Unit × State n :=
  rocketProbe env d { s with powerNb := Function.update s.powerNb d none }

def suspendDevice (clk : ClkReply) (d : Fin n) (s : State n) : State n :=
  match s.rdev, findCoreForDev d s with
  | some rdev, some i => (rocketDevfreqSuspend clk ⟨rdev, i⟩ s).2
  | _, _ => s

def Op.run : Op n → State n → State n
  | .probe env d, s => (attachAndProbe env d s).2
  | .remove env d, s => rocketRemove env d s
  | .target env opp, s => (rocketDevfreqTarget env opp s).2
  | .notify clk stale i action, s => (rocketDfNotify clk stale i action s).2
  | .genpd env d up, s => (genpdSwitch env d up s).2
  | .suspend clk d, s => suspendDevice clk d s
  | .rail uv, s => { s with rail := uv }

/-- What the callers promise, on a clock that takes the safe rate exactly: a device is
probed while unbound, and `devfreq_recommended_opp` returns a rate of the OPP table. -/
def Op.Admissible : Op n → State n → Prop
  | .probe env d, s =>
    (∀ i, s.cores i ≠ some d) ∧ env.coreInit.wake.SafeExact ∧ env.init.wake.SafeExact
  | .remove env _, _ => SafeExact env.clk ∧ SafeExact env.fini.clk
  | .target env opp, _ =>
    (∀ i, (env.wake i).SafeExact) ∧ SafeExact env.clk ∧ ∀ freq, opp = .ok freq → freq ∈ oppTable
  | .notify clk _ _ _, _ => SafeExact clk
  | .genpd env _ _, _ => env.SafeExact
  | .suspend clk _, _ => SafeExact clk
  | .rail _, _ => True

def Loaded (s : State n) : Prop := ∃ clock rail, clock ≤ rocketSafeRate ∧ s = .load clock rail

def Step (s : State n) (op : Op n) (t : State n) : Prop := op.Admissible s ∧ t = op.run s

abbrev Reaches (s : State n) : Prop := Reachable Loaded Step s

theorem Reaches.run {s : State n} (h : Reaches s) {op : Op n} (ha : op.Admissible s) :
    Reaches (op.run s) :=
  .step h ⟨ha, rfl⟩

def Wake.awake : Wake n := ⟨none, none⟩

theorem Wake.awake_safeExact : (Wake.awake : Wake n).SafeExact := by
  intro env h
  simp [Wake.awake] at h

/-- An environment in which no call of a probe fails; the device goes to address `a`. -/
def ProbeEnv.smooth (a : ℕ) : ProbeEnv n where
  deviceInit := .ok a
  coreInit := ⟨none, .awake⟩
  init :=
    { wake := .awake
      reg := true
      opp := none
      now := 0
      addDevice := none
      notifier := fun _ => none
      cdev := true }

def TargetEnv.smooth : TargetEnv n := ⟨fun _ => .awake, .ok⟩

theorem Op.probe_smooth_admissible {s : State n} (a : ℕ) {d : Fin n}
    (hd : ∀ i, s.cores i ≠ some d) : (Op.probe (.smooth a) d).Admissible s :=
  ⟨hd, Wake.awake_safeExact, Wake.awake_safeExact⟩

theorem Op.target_smooth_admissible {s : State n} {freq : ℕ} (h : freq ∈ oppTable) :
    (Op.target .smooth (.ok freq)).Admissible s :=
  ⟨fun _ => Wake.awake_safeExact, rfl, fun _ hf => Except.ok.inj hf ▸ h⟩

end RocketNpu.Devfreq
