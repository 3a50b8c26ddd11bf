import RocketNpu.Devfreq.State

namespace RocketNpu.Devfreq

variable {n : ℕ}

/-- The answer of `clk_set_rate` to each rate it may be asked for: an error, which leaves
the clock alone, or the rate the clock settles on. -/
abbrev ClkReply := ℕ → Except Errno ℕ

def clkSetRate (reply : ClkReply) (rate : ℕ) (s : State n) : Except Errno Unit × State n :=
  match reply rate with
  | .error e => (.error e, s)
  | .ok got => (.ok (), { s with clock := got })

/-- `GENPD_NOTIFY_PRE_ON`, `GENPD_NOTIFY_PRE_OFF`, `GENPD_NOTIFY_ON`, `GENPD_NOTIFY_OFF`. -/
inductive GenpdAction where
  | preOn | preOff | on | off
deriving DecidableEq, Repr

/-- `if (clk_get_rate(clk) != ROCKET_SAFE_RATE) ret = clk_set_rate(clk, ROCKET_SAFE_RATE)`. -/
def lowerClock (clk : ClkReply) (s : State n) : Except Errno Unit × State n :=
  if s.clock = rocketSafeRate then (.ok (), s) else clkSetRate clk rocketSafeRate s

def dropRequest (s : State n) : State n :=
  if s.df.reqRate = rocketSafeRate then s else s.setReqRate rocketSafeRate

/-- The section of `rocket_df_notify` under `rate_lock`. -/
def makeSafe (clk : ClkReply) (s : State n) : Except Errno Unit × State n :=
  ((lowerClock clk s).1, dropRequest (lowerClock clk s).2)

/-- `rocket_df_notify` on the block `rocket_df_nb[i]`. An error is a veto. -/
def rocketDfNotify (clk : ClkReply) (stale : Option (Fin n)) (i : ℕ) (action : GenpdAction)
    (s : State n) : Except Errno Unit × State n :=
  match (s.nb i).core, s.df.core with
  | some core, some _ =>
    -- a block left behind by a core that is gone
    if (s.coreDev stale core).isNone then (.ok (), s)
    else match action with
      | .preOn | .preOff => makeSafe clk s
      | .on | .off => (.ok (), s)
  | _, _ => (.ok (), s)

/-- What the calls of one domain's notifiers depend on, per block. -/
structure SwitchEnv (n : ℕ) where
  clk : ℕ → ClkReply
  stale : ℕ → Option (Fin n)

/-- `raw_notifier_call_chain_robust`: the blocks in order, up to the first veto. -/
def notifyChain (env : SwitchEnv n) (action : GenpdAction) :
    List ℕ → State n → Except Errno Unit × State n
  | [], s => (.ok (), s)
  | i :: is, s =>
    match rocketDfNotify (env.clk i) (env.stale i) i action s with
    | (.error e, s) => (.error e, s)
    | (.ok (), s) => notifyChain env action is s

/-- `_genpd_power_on` and `_genpd_power_off` for the domain of `d`: no block may object, and
then the domain is switched, at the rate the clock has by now. -/
def genpdSwitch (env : SwitchEnv n) (d : Fin n) (up : Bool) (s : State n) :
    Except Errno Unit × State n :=
  match notifyChain env (if up then .preOn else .preOff) (s.chain d) s with
  | (.error e, s) => (.error e, s)
  | (.ok (), s) => (.ok (), { s with switches := s.clock :: s.switches })

/-- How the resume of one device goes: whether its domain has to be powered on for it, and
whether it fails after that. -/
structure Wake (n : ℕ) where
  powerOn : Option (SwitchEnv n)
  fail : Option Errno

def Wake.power (w : Wake n) (d : Fin n) (s : State n) : Except Errno Unit × State n :=
  match w.powerOn with
  | none => (.ok (), s)
  | some env => genpdSwitch env d true s

def pmRuntimeResumeAndGet (w : Wake n) (d : Fin n) (s : State n) :
    Except Errno Unit × State n :=
  match w.power d s with
  | (.error e, s) => (.error e, s)
  | (.ok (), s) =>
    match w.fail with
    | some e => (.error e, s)
    | none => (.ok (), s.addHeld d 1)

/-- `pm_runtime_put` and `pm_runtime_put_autosuspend`, which only queue the suspend. -/
def pmRuntimePut (d : Fin n) (s : State n) : State n := s.addHeld d (-1)

def devPmGenpdAddNotifier (reply : Option Errno) (d : Fin n) (i : ℕ) (s : State n) :
    Except Errno Unit × State n :=
  match s.powerNb d, reply with
  | some _, _ => (.error .eexist, s)
  | none, some e => (.error e, s)
  | none, none => (.ok (), { s with
      chain := Function.update s.chain d (i :: s.chain d)
      powerNb := Function.update s.powerNb d (some i) })

def devPmGenpdRemoveNotifier (reply : Option Errno) (d : Fin n) (s : State n) :
    Except Errno Unit × State n :=
  match s.powerNb d, reply with
  | none, _ => (.error .enodev, s)
  | some _, some e => (.error e, s)
  | some i, none => (.ok (), { s with
      chain := Function.update s.chain d ((s.chain d).erase i)
      powerNb := Function.update s.powerNb d none })

/-- How many blocks of `rocket_df_nb` are armed. -/
def armedCount (s : State n) : ℕ :=
  (List.range rocketDfMaxNb).countP fun i => (s.nb i).armed

def rocketDfAllGuarded (s : State n) : Bool := armedCount s = n

/-- One round of the loop in `rocket_df_arm_notifiers`, for the `rocket_device` at `rdev`. -/
def armSlot (reply : Option Errno) (rdev i : ℕ) (s : State n) : State n :=
  match s.cores i with
  | none => s
  | some d =>
    if (s.nb i).armed then s
    else
      let s := s.setNb i ⟨some ⟨rdev, i⟩, false⟩
      match devPmGenpdAddNotifier reply d i s with
      -- fails closed: no boost until the module is loaded again
      | (.error _, s) => (s.setNb i ⟨none, false⟩).setUnsafe
      | (.ok (), s) => s.setNb i ⟨some ⟨rdev, i⟩, true⟩

def armUpTo (reply : ℕ → Option Errno) (rdev : ℕ) : ℕ → State n → State n
  | 0, s => s
  | i + 1, s => armSlot (reply i) rdev i (armUpTo reply rdev i s)

def rocketDfArmNotifiers (reply : ℕ → Option Errno) (rdev : ℕ) (s : State n) : State n :=
  armUpTo reply rdev (min n rocketDfMaxNb) s

/-- One round of the loop in `rocket_df_disarm_notifiers`. -/
def disarmSlot (reply : Option Errno) (stale : Option (Fin n)) (i : ℕ) (s : State n) : State n :=
  match (s.nb i).armed, (s.nb i).core.bind (s.coreDev stale) with
  | true, some d =>
    match devPmGenpdRemoveNotifier reply d s with
    -- a block that could not be taken down keeps its entry
    | (.error _, s) => s
    | (.ok (), s) => s.setNb i ⟨none, false⟩
  | _, _ => s

def disarmUpTo (reply : ℕ → Option Errno) (stale : ℕ → Option (Fin n)) :
    ℕ → State n → State n
  | 0, s => s
  | i + 1, s => disarmSlot (reply i) (stale i) i (disarmUpTo reply stale i s)

def rocketDfDisarmNotifiers (reply : ℕ → Option Errno) (stale : ℕ → Option (Fin n))
    (s : State n) : State n :=
  disarmUpTo reply stale rocketDfMaxNb s

end RocketNpu.Devfreq
