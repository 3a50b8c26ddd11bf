import Mathlib.Data.Int.Notation

namespace RocketNpu.Volt

/-- In microvolts, as every voltage here. -/
def voltFloor : ℤ := 800000

def voltCap : ℤ := 950000

/-- The static data of the `npu_volt_probe` module; `npuReg` and `npuPdev` say whether the
pointers are set. -/
structure Probe where
  uv : ℤ
  npuReg : Bool
  npuPdev : Bool
  origUv : ℤ
deriving DecidableEq, Repr

/-- What the module meets outside. `set uv rail` is the return value of
`regulator_set_voltage(uv, uv)` and what the rail reads afterwards. -/
structure Env where
  node : Bool
  device : Bool
  regulatorGet : Option ℤ
  set : ℤ → ℤ → ℤ × ℤ

/-- The labels `err_reg` and `err_pdev`. -/
def Probe.errReg (p : Probe) : Probe := { p with npuReg := false, npuPdev := false }

/-- `npu_volt_probe_init` from the request for a voltage on. -/
def raiseRail (env : Env) (p : Probe) (rail : ℤ) : ℤ × Probe × ℤ :=
  if p.uv < voltFloor ∨ voltCap < p.uv then (-22, p.errReg, rail)
  else if p.uv < p.origUv then (-22, p.errReg, rail)
  else
    match env.set p.uv rail with
    | (ret, got) =>
      if ret ≠ 0 then (ret, p.errReg, got)
      else if got < 0 then (got, p.errReg, (env.set p.origUv got).2)
      else if voltCap < got then (-34, p.errReg, (env.set p.origUv got).2)
      else (0, p, got)

/-- Loading the module with the parameter `uv`: the return value, the module's data and
what the rail reads afterwards. -/
def npuVoltProbeInit (env : Env) (uv rail : ℤ) : ℤ × Probe × ℤ :=
  let p : Probe := ⟨uv, false, false, 0⟩
  if env.node = false then (-19, p, rail)
  else if env.device = false then (-19, p, rail)
  else
    match env.regulatorGet with
    | some ret => (ret, p, rail)
    | none =>
      let p := { p with npuReg := true, npuPdev := true, origUv := rail }
      if rail < 0 then (rail, p.errReg, rail)
      else if uv = 0 then (0, p, rail)
      else raiseRail env p rail

/-- What the rail reads once the module is unloaded. -/
def npuVoltProbeExit (env : Env) (p : Probe) (rail : ℤ) : ℤ :=
  if p.npuReg = true ∧ p.uv ≠ 0 ∧ 0 < p.origUv then (env.set p.origUv rail).2 else rail

end RocketNpu.Volt
