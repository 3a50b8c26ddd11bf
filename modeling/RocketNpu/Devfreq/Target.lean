import RocketNpu.Devfreq.Notifier

namespace RocketNpu.Devfreq

variable {n : ℕ}

/-- `while (i--) if (cores[i].dev) pm_runtime_put(cores[i].dev)`. -/
def unwind : ℕ → State n → State n
  | 0, s => s
  | i + 1, s =>
    match s.cores i with
    | none => unwind i s
    | some d => unwind i (pmRuntimePut d s)

/-- The loop of `rocket_devfreq_hold_all` after its first rounds. -/
def holdUpTo (wake : ℕ → Wake n) : ℕ → State n → Except Errno Unit × State n
  | 0, s => (.ok (), s)
  | i + 1, s =>
    match holdUpTo wake i s with
    | (.error e, s) => (.error e, s)
    | (.ok (), s) =>
      match s.cores i with
      | none => (.ok (), s)
      | some d =>
        match pmRuntimeResumeAndGet (wake i) d s with
        -- the cores woken so far are let go
        | (.error e, s) => (.error e, unwind i s)
        | (.ok (), s) => (.ok (), s)

def rocketDevfreqHoldAll (wake : ℕ → Wake n) (s : State n) : Except Errno Unit × State n :=
  holdUpTo wake n s

def releaseUpTo : ℕ → State n → State n
  | 0, s => s
  | i + 1, s =>
    match (releaseUpTo i s).cores i with
    | none => releaseUpTo i s
    | some d => pmRuntimePut d (releaseUpTo i s)

def rocketDevfreqReleaseAll (s : State n) : State n := releaseUpTo n s

/-- The condition of the early exit of `rocket_devfreq_target`. -/
def EarlyExit (freq : ℕ) (s : State n) : Prop :=
  freq = s.df.reqRate ∧ (freq = rocketSafeRate ∨ s.df.isUnsafe = false) ∧ s.clock = freq

instance (freq : ℕ) (s : State n) : Decidable (EarlyExit freq s) :=
  inferInstanceAs (Decidable (_ ∧ _ ∧ _))

/-- The value `uv` of the voltage check; without a regulator it is `-ENODEV`. -/
def railReading (s : State n) : ℤ := if s.df.reg then s.rail else -19

/-- The reference bookkeeping after the rate was written, with the fresh set in hand. -/
def settleRefs (s : State n) : State n :=
  if rocketSafeRate < s.df.reqRate then
    -- the fresh set becomes the boost set, an old one is put
    (if s.df.refsHeld then rocketDevfreqReleaseAll s else s).setRefsHeld true
  else
    rocketDevfreqReleaseAll
      (if s.df.refsHeld then rocketDevfreqReleaseAll (s.setRefsHeld false) else s)

/-- `rocket_devfreq_target` from the publication of the request on. -/
def changeRate (clk : ClkReply) (freq : ℕ) (s : State n) : Except Errno ℕ × State n :=
  match clkSetRate clk freq (s.setReqRate freq) with
  -- the request was published before the write, and is taken back
  | (.error e, s') => (.error e, settleRefs (s'.setReqRate s.df.reqRate))
  | (.ok (), s') => (.ok s'.clock, settleRefs s')

structure TargetEnv (n : ℕ) where
  wake : ℕ → Wake n
  clk : ClkReply

/-- The section of `rocket_devfreq_target` under `rocket_df.lock`, for the rate that
`devfreq_recommended_opp` left in `*freq`. A success carries the final `*freq`. -/
def targetLocked (env : TargetEnv n) (freq : ℕ) (s : State n) :
    Except Errno ℕ × State n :=
  if s.df.core = none then (.error .enodev, s)
  -- neither the gate nor the rail is looked at here
  else if EarlyExit freq s then (.ok freq, s)
  else if rocketSafeRate < freq ∧ (s.df.isUnsafe ∨ ¬ rocketDfAllGuarded s) then
    (.error .eagain, s)
  else if rocketHighRate < freq ∧ railReading s < rocketVoltForHigh then (.error .eperm, s)
  else
    match rocketDevfreqHoldAll env.wake s with
    | (.error e, s) => (.error e, s)
    | (.ok (), s) => changeRate env.clk freq s

def rocketDevfreqTarget (env : TargetEnv n) (opp : Except Errno ℕ) (s : State n) :
    Except Errno ℕ × State n :=
  match opp with
  | .error e => (.error e, s)
  | .ok freq => targetLocked env freq s

end RocketNpu.Devfreq
