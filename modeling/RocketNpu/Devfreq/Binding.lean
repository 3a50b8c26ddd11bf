import RocketNpu.Devfreq.Target

namespace RocketNpu.Devfreq

variable {n : ℕ}

def rocketDevfreqOwns (core : CorePtr) (s : State n) : Bool :=
  match s.df.core with
  | some owner => (s.cores core.idx).isSome && core.rdev == owner.rdev
  | none => false

/-- What `rocket_devfreq_init` depends on outside the component. -/
structure InitEnv (n : ℕ) where
  wake : Wake n
  reg : Bool
  /-- `devm_pm_opp_set_config` and the `dev_pm_opp_add` of the safe rate. -/
  opp : Option Errno
  now : ℤ
  addDevice : Option Errno
  notifier : ℕ → Option Errno
  cdev : Bool

/-- `rocket_devfreq_init`, once the baseline rate was read with the domain on. -/
def initAtSafeRate (env : InitEnv n) (core : CorePtr) (s : State n) : State n :=
  let s := { s with df.reg := env.reg }
  if env.opp.isSome then s
  else
    let s := { s with
      busyLastRead := env.now
      df.core := some core
      df.reqRate := rocketSafeRate
      df.refsHeld := false }
    if env.addDevice.isSome then { s with df.core := none }
    else
      -- the owner is set by now: a block that fires is acted on
      let s := rocketDfArmNotifiers env.notifier core.rdev s
      { s with df.cdev := env.cdev }

def rocketDevfreqInit (env : InitEnv n) (core : CorePtr) (d : Fin n) (s : State n) : State n :=
  if s.df.core.isSome then s
  else
    match pmRuntimeResumeAndGet env.wake d s with
    | (.error _, s) => s
    | (.ok (), s) =>
      let s := pmRuntimePut d s
      if s.clock ≠ rocketSafeRate then s else initAtSafeRate env core s

def rocketDevfreqCoreAdded (notifier : ℕ → Option Errno) (core : CorePtr) (s : State n) :
    State n :=
  if rocketDevfreqOwns core s then rocketDfArmNotifiers notifier core.rdev s else s

/-- Every suspend of a core puts the clock back through the core's own handle. -/
def rocketDevfreqSuspend (clk : ClkReply) (core : CorePtr) (s : State n) :
    Except Errno Unit × State n :=
  if rocketDevfreqOwns core s then
    match clkSetRate clk rocketSafeRate s with
    | (.error _, s) => (.error .ebusy, s)
    | (.ok (), s) => (.ok (), s)
  else (.ok (), s)

/-- The section of `rocket_devfreq_core_removed` under `rocket_df.lock`. -/
def coreRemovedLocked (clk : ClkReply) (s : State n) : State n :=
  if s.df.core.isNone then s
  else
    let s :=
      match lowerClock clk (s.setReqRate rocketSafeRate) with
      | (.error _, s) => s.setUnsafe
      | (.ok (), s) => s
    -- without the owner's references no core is kept awake
    if s.df.refsHeld then rocketDevfreqReleaseAll (s.setRefsHeld false) else s

/-- The slot at which the loop of `rocket_devfreq_core_removed` stops. -/
def findArmed (core : CorePtr) (s : State n) : Option ℕ :=
  (List.range rocketDfMaxNb).find? fun i => (s.nb i).armed && (s.nb i).core == some core

def coreRemovedUnregister (reply : Option Errno) (core : CorePtr) (d : Fin n) (s : State n) :
    State n :=
  match findArmed core s with
  | none => s
  | some i =>
    match devPmGenpdRemoveNotifier reply d s with
    | (.error _, s) => s.setUnsafe
    | (.ok (), s) => s.setNb i ⟨none, false⟩

def rocketDevfreqCoreRemoved (clk : ClkReply) (reply : Option Errno) (core : CorePtr)
    (d : Fin n) (s : State n) : State n :=
  coreRemovedUnregister reply core d (coreRemovedLocked clk s)

/-- The section of `rocket_devfreq_fini` under `rocket_df.lock`; `suspended` is
`pm_runtime_status_suspended(core->dev)`. A failing `clk_set_rate` is only logged. -/
def finiLocked (clk : ClkReply) (suspended : Bool) (s : State n) : State n :=
  let s := s.setReqRate rocketSafeRate
  let s :=
    if s.df.refsHeld then
      rocketDevfreqReleaseAll (clkSetRate clk rocketSafeRate (s.setRefsHeld false)).2
    else if suspended then s
    else (clkSetRate clk rocketSafeRate s).2
  { s with df.core := none }

structure FiniEnv (n : ℕ) where
  clk : ClkReply
  suspended : Bool
  notifier : ℕ → Option Errno
  stale : ℕ → Option (Fin n)

def rocketDevfreqFini (env : FiniEnv n) (core : CorePtr) (s : State n) : State n :=
  if rocketDevfreqOwns core s ∧ s.df.core = some core then
    rocketDfDisarmNotifiers env.notifier env.stale
      (finiLocked env.clk env.suspended { s with df.cdev := false })
  else s

/-- What `rocket_core_init` does to power: it may fail before, in or after the resume. -/
structure CoreInitEnv (n : ℕ) where
  before : Option Errno
  wake : Wake n

def rocketCoreInit (env : CoreInitEnv n) (d : Fin n) (s : State n) : Except Errno Unit × State n :=
  match env.before with
  | some e => (.error e, s)
  | none =>
    match pmRuntimeResumeAndGet env.wake d s with
    | (.error e, s) => (.error e, s)
    | (.ok (), s) => (.ok (), pmRuntimePut d s)

structure ProbeEnv (n : ℕ) where
  /-- `devres_open_group` and `rocket_device_init`: an error or the new address. -/
  deviceInit : Except Errno ℕ
  coreInit : CoreInitEnv n
  init : InitEnv n

/-- The first slot without a device. -/
def freeSlot (s : State n) : Option ℕ := (List.range n).find? fun i => (s.cores i).isNone

def State.freeDevice (s : State n) : State n := { s with rdev := none, cores := fun _ => none }

/-- Gives slot `i` back, and the whole device with the last core. -/
def unbindSlot (i : ℕ) (s : State n) : State n :=
  let s := { s.setDev i none with numCores := s.numCores - 1 }
  if s.numCores = 0 then s.freeDevice else s

/-- `rocket_probe` from the search for a free slot on. -/
def probeSlot (env : ProbeEnv n) (rdev : ℕ) (d : Fin n) (s : State n) :
    Except Errno Unit × State n :=
  match freeSlot s with
  | none => (.error .enxio, s)
  | some i =>
    let s := { s.setDev i (some d) with numCores := s.numCores + 1 }
    match rocketCoreInit env.coreInit d s with
    | (.ok (), s) =>
      -- only the core in slot 0 may own devfreq
      if i = 0 then (.ok (), rocketDevfreqInit env.init ⟨rdev, i⟩ d s)
      else (.ok (), rocketDevfreqCoreAdded env.init.notifier ⟨rdev, i⟩ s)
    | (.error e, s) => (.error e, unbindSlot i s)

def rocketProbe (env : ProbeEnv n) (d : Fin n) (s : State n) : Except Errno Unit × State n :=
  match s.rdev, env.deviceInit with
  | some rdev, _ => probeSlot env rdev d s
  | none, .error e => (.error e, s)
  | none, .ok rdev =>
    probeSlot env rdev d { s with rdev := some rdev, cores := fun _ => none, numCores := 0 }

def findCoreForDev (d : Fin n) (s : State n) : Option ℕ :=
  (List.range n).find? fun i => s.cores i == some d

structure RemoveEnv (n : ℕ) where
  clk : ClkReply
  notifier : Option Errno
  fini : FiniEnv n

def rocketRemove (env : RemoveEnv n) (d : Fin n) (s : State n) : State n :=
  match s.rdev, findCoreForDev d s with
  | some rdev, some i =>
    let s := rocketDevfreqCoreRemoved env.clk env.notifier ⟨rdev, i⟩ d s
    let s := rocketDevfreqFini env.fini ⟨rdev, i⟩ s
    unbindSlot i s
  | _, _ => s

end RocketNpu.Devfreq
