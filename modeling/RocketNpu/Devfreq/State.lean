import Mathlib.Data.Int.Notation
import Mathlib.Logic.Function.Basic
import RocketNpu.Errno

namespace RocketNpu.Devfreq

/-- In Hz, as every clock rate here. -/
def rocketSafeRate : ℕ := 200000000

def rocketHighRate : ℕ := 700000000

/-- Microvolts the rail must read before a rate above `rocketHighRate`. -/
def rocketVoltForHigh : ℤ := 850000

def rocketDfMaxNb : ℕ := 4

/-- The rates `rocket_devfreq_init` adds to the OPP table after the safe one. -/
def steps : List ℕ :=
  [300000000, 400000000, 500000000, 600000000, 700000000, 800000000, 900000000, 1000000000]

def oppTable : List ℕ := rocketSafeRate :: steps

/-- `&rdev->cores[idx]`, for the `rocket_device` that was allocated at address `rdev`. -/
structure CorePtr where
  rdev : ℕ
  idx : ℕ
deriving DecidableEq, Repr

/-- The static `rocket_df`. The flag `unsafe` of the source is `isUnsafe`; `reg` and
`cdev` say whether a regulator and a cooling device are held. -/
structure RocketDf where
  core : Option CorePtr
  reqRate : ℕ
  refsHeld : Bool
  isUnsafe : Bool
  reg : Bool
  cdev : Bool
deriving DecidableEq, Repr

structure RocketDfNb where
  core : Option CorePtr
  armed : Bool
deriving DecidableEq, Repr

/-- The devfreq component for a device tree with `n` available cores, which is the
`max_cores` of every `rocket_device`. A platform device is named by its node, and each
sits in a power domain of its own. -/
structure State (n : ℕ) where
  /-- The global `rdev`; `none` is NULL. -/
  rdev : Option ℕ
  /-- `rdev->cores[i].dev`; `none` is NULL. -/
  cores : ℕ → Option (Fin n)
  numCores : ℕ
  df : RocketDf
  nb : ℕ → RocketDfNb
  /-- `genpd->power_notifiers` of a device's domain, as indices into `rocket_df_nb`. -/
  chain : Fin n → List ℕ
  /-- `gpd_data->power_nb`: the block registered through a device. -/
  powerNb : Fin n → Option ℕ
  /-- `clk_get_rate` of the shared NPU clock. -/
  clock : ℕ
  /-- What `regulator_get_voltage` returns for the NPU rail, negative for an error. -/
  rail : ℤ
  /-- Runtime-PM references devfreq has taken on a device and not put. -/
  held : Fin n → ℤ
  /-- The clock rate at each switching of an NPU power domain, latest first. -/
  switches : List ℕ
  /-- `rocket_df_busy_last_read`. -/
  busyLastRead : ℤ

variable {n : ℕ}

/-- Module load: the static data, nothing bound, no block in any chain. -/
def State.load (clock : ℕ) (rail : ℤ) : State n where
  rdev := none
  cores _ := none
  numCores := 0
  df := ⟨none, rocketSafeRate, false, false, false, false⟩
  nb _ := ⟨none, false⟩
  chain _ := []
  powerNb _ := none
  clock := clock
  rail := rail
  held _ := 0
  switches := []
  busyLastRead := 0

def State.setReqRate (s : State n) (r : ℕ) : State n := { s with df.reqRate := r }

def State.setRefsHeld (s : State n) (b : Bool) : State n := { s with df.refsHeld := b }

def State.setUnsafe (s : State n) : State n := { s with df.isUnsafe := true }

def State.setNb (s : State n) (i : ℕ) (b : RocketDfNb) : State n :=
  { s with nb := Function.update s.nb i b }

def State.setDev (s : State n) (i : ℕ) (d : Option (Fin n)) : State n :=
  { s with cores := Function.update s.cores i d }

def State.addHeld (s : State n) (d : Fin n) (k : ℤ) : State n :=
  { s with held := Function.update s.held d (s.held d + k) }

/-- `core->dev` read through a pointer. A pointer into a freed `rocket_device` reads
whatever lies there, which is the argument `stale`. -/
def State.coreDev (s : State n) (stale : Option (Fin n)) (p : CorePtr) : Option (Fin n) :=
  if s.rdev = some p.rdev then s.cores p.idx else stale

end RocketNpu.Devfreq
