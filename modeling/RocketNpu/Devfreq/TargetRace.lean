import RocketNpu.Devfreq.Outcome

namespace RocketNpu.Devfreq
open Runs

variable {n : ℕ}

/-- A clock that settles on the rate it was asked for whenever it does not fail. -/
def ClkReply.Exact (reply : ClkReply) : Prop := ∀ rate got, reply rate = .ok got → got = rate

/-- The refusals and the early exit of `rocket_devfreq_target`; `none` gets past them. -/
def targetGates (freq : ℕ) (s : State n) : Option (Except Errno ℕ) :=
  if s.df.core = none then some (.error .enodev)
  else if EarlyExit freq s then some (.ok freq)
  else if rocketSafeRate < freq ∧ (s.df.isUnsafe ∨ ¬ rocketDfAllGuarded s) then
    some (.error .eagain)
  else if rocketHighRate < freq ∧ railReading s < rocketVoltForHigh then some (.error .eperm)
  else none

/-- Where a run of `rocket_devfreq_target` stands, with the locals it still needs. -/
inductive TargetPc where
  | entered (opp : Except Errno ℕ)
  | gated (freq : ℕ)
  | awake (freq : ℕ)
  | published (freq old : ℕ)
  | writeFailed (old : ℕ) (e : Errno)
  | settling (ret : Except Errno ℕ)
  | returned (ret : Except Errno ℕ)
deriving DecidableEq

/-- A run of `rocket_devfreq_target`, whose lock keeps no notifier out. -/
structure TargetRun (n : ℕ) where
  s : State n
  pc : TargetPc

/-- The next step of the run itself. -/
def TargetRun.advance (env : TargetEnv n) : TargetRun n → TargetRun n
  | ⟨s, .entered (.error e)⟩ => ⟨s, .returned (.error e)⟩
  | ⟨s, .entered (.ok freq)⟩ =>
    match targetGates freq s with
    | some ret => ⟨s, .returned ret⟩
    | none => ⟨s, .gated freq⟩
  | ⟨s, .gated freq⟩ =>
    match rocketDevfreqHoldAll env.wake s with
    | (.error e, s) => ⟨s, .returned (.error e)⟩
    | (.ok (), s) => ⟨s, .awake freq⟩
  | ⟨s, .awake freq⟩ => ⟨s.setReqRate freq, .published freq s.df.reqRate⟩
  | ⟨s, .published freq old⟩ =>
    -- the section under `rate_lock`
    match clkSetRate env.clk freq s with
    | (.error e, s) => ⟨s, .writeFailed old e⟩
    | (.ok (), s) => ⟨s, .settling (.ok s.clock)⟩
  | ⟨s, .writeFailed old e⟩ => ⟨s.setReqRate old, .settling (.error e)⟩
  | ⟨s, .settling ret⟩ => ⟨settleRefs s, .returned ret⟩
  | ⟨s, .returned ret⟩ => ⟨s, .returned ret⟩

inductive RaceEv (n : ℕ) where
  | advance (env : TargetEnv n)
  | notify (clk : ClkReply) (stale : Option (Fin n)) (i : ℕ) (action : GenpdAction)

def RaceEv.run : RaceEv n → TargetRun n → TargetRun n
  | .advance env, r => r.advance env
  | .notify clk stale i action, r => ⟨(rocketDfNotify clk stale i action r.s).2, r.pc⟩

/-- Every clock the event asks is exact when it does not fail. -/
def RaceEv.Exact : RaceEv n → Prop
  | .advance env => env.clk.Exact ∧
      ∀ i sw, (env.wake i).powerOn = some sw → ∀ j, (sw.clk j).Exact
  | .notify clk _ _ _ => clk.Exact

def RaceStep (r : TargetRun n) (e : RaceEv n) (t : TargetRun n) : Prop :=
  e.Exact ∧ t = e.run r

/-- The request is the clock rate, and a clock above the safe rate is backed by references. -/
structure Agrees (s : State n) : Prop where
  reqRate : s.df.reqRate = s.clock
  refsHeld : rocketSafeRate < s.clock → s.df.refsHeld = true

def RaceStart (r : TargetRun n) : Prop :=
  (∃ opp, r.pc = .entered opp) ∧ r.s.df.reqRate = r.s.clock ∧
    (r.s.df.refsHeld = true ↔ rocketSafeRate < r.s.clock)

/-- A notifier that has to lower the clock is able to. -/
def Lowerable (clk : ClkReply) (s : State n) : Prop :=
  s.clock = rocketSafeRate ∨ ∃ got, clk rocketSafeRate = .ok got

/-- The notifiers of the cores woken by `rocket_devfreq_hold_all` are able to lower the clock. -/
def Wakeable (wake : ℕ → Wake n) (s : State n) : Prop :=
  ∀ i d sw, s.cores i = some d → (wake i).powerOn = some sw →
    ∀ j ∈ s.chain d, Lowerable (sw.clk j) s

/-- No notifier fails to lower the clock, and none has dropped the boost between the
publication of the request and the write that goes through, or the rollback. -/
def Undropped (r : TargetRun n) : RaceEv n → Prop
  | .notify clk _ _ _ => Lowerable clk r.s
  | .advance env =>
    match r.pc with
    | .gated _ => Wakeable env.wake r.s
    | .published freq _ => (∃ got, env.clk freq = .ok got) → r.s.df.reqRate = freq
    | .writeFailed old _ => r.s.clock = old
    | _ => True

theorem advance_returned (env : TargetEnv n) (ret : Except Errno ℕ) (s : State n) (k : ℕ) :
    (TargetRun.advance env)^[k] ⟨s, .returned ret⟩ = ⟨s, .returned ret⟩ :=
  Function.iterate_fixed rfl k

theorem advance_awake (env : TargetEnv n) (freq : ℕ) (s : State n) :
    (TargetRun.advance env)^[4] ⟨s, .awake freq⟩ =
      ⟨(changeRate env.clk freq s).2, .returned (changeRate env.clk freq s).1⟩ := by
  rw [Function.iterate_succ_apply, TargetRun.advance, Function.iterate_succ_apply,
    TargetRun.advance, changeRate]
  rcases clkSetRate_cases env.clk freq (s.setReqRate freq) with ⟨e, h⟩ | ⟨got, h⟩
  · rw [h]
    rfl
  · rw [h]
    rfl

/-- Left alone, the run is a call of `rocket_devfreq_target`. -/
theorem advance_eq_target (env : TargetEnv n) (opp : Except Errno ℕ) (s : State n) :
    (TargetRun.advance env)^[6] ⟨s, .entered opp⟩ =
      ⟨(rocketDevfreqTarget env opp s).2, .returned (rocketDevfreqTarget env opp s).1⟩ := by
  cases opp with
  | error e => exact advance_returned env (.error e) s 5
  | ok freq =>
    change _ = (⟨(targetLocked env freq s).2, .returned (targetLocked env freq s).1⟩ : TargetRun n)
    rw [Function.iterate_succ_apply, TargetRun.advance, targetGates, targetLocked]
    split_ifs with h1 h2 h3 h4
    · exact advance_returned env _ s 5
    · exact advance_returned env _ s 5
    · exact advance_returned env _ s 5
    · exact advance_returned env _ s 5
    · change (TargetRun.advance env)^[4] (TargetRun.advance env ⟨s, .gated freq⟩) = _
      rw [TargetRun.advance]
      rcases rocketDevfreqHoldAll env.wake s with ⟨e | _, t⟩
      · exact advance_returned env _ t 4
      · exact advance_awake env freq t

theorem makeSafe_lowerable {clk : ClkReply} {s : State n} (hx : clk.Exact)
    (h : Lowerable clk s) : (makeSafe clk s).2 =
      { s with clock := rocketSafeRate, df.reqRate := rocketSafeRate } := by
  rcases h with hs | ⟨got, hgot⟩
  · simp only [makeSafe, lowerClock, hs, if_true, dropRequest_eq, State.setReqRate]
  · rw [makeSafe_eq (hgot.trans (congrArg Except.ok (hx _ _ hgot)))]

theorem agrees_safe {s : State n} (hr : s.df.reqRate = rocketSafeRate)
    (hc : s.clock = rocketSafeRate) : Agrees s := by
  refine ⟨hr.trans hc.symm, fun hlt => ?_⟩
  omega

/-- What the notifiers keep while they are able to lower the clock. -/
structure Kept (s t : State n) : Prop where
  wiring : t.wiring = s.wiring
  agrees : Agrees t
  safe : s.clock = rocketSafeRate → t.clock = rocketSafeRate

theorem Kept.notify {s t : State n} {clk : ClkReply} (h : Kept s t) (hx : clk.Exact)
    (hl : Lowerable clk s) (stale : Option (Fin n)) (i : ℕ) (action : GenpdAction) :
    Kept s (rocketDfNotify clk stale i action t).2 := by
  rcases rocketDfNotify_cases clk stale i action t with he | he
  · rw [he]
    exact h
  · have hw := (makeSafe_frame clk t).wiring.trans h.wiring
    have hlt : Lowerable clk t := hl.imp h.safe id
    rw [he]
    rw [makeSafe_lowerable hx hlt] at hw ⊢
    exact ⟨hw, agrees_safe rfl rfl, fun _ => rfl⟩

theorem Kept.power {s t : State n} {w : Wake n} {d : Fin n} (h : Kept s t)
    (hx : ∀ sw, w.powerOn = some sw → ∀ j, (sw.clk j).Exact)
    (hl : ∀ sw, w.powerOn = some sw → ∀ j ∈ s.chain d, Lowerable (sw.clk j) s) :
    Kept s (w.power d t).2 := by
  unfold Wake.power
  split
  · exact h
  · next sw heq =>
    have hchain : t.chain = s.chain := congrArg Wiring.chain h.wiring
    apply genpdSwitch_keeps (P := Kept s) _ _ h
    · intro j hj u hu
      rw [hchain] at hj
      exact hu.notify (hx sw heq j) (hl sw heq j hj) (sw.stale j) j _
    · intro u l hu
      exact ⟨hu.wiring, ⟨hu.agrees.reqRate, hu.agrees.refsHeld⟩, hu.safe⟩

theorem holdAll_agrees {wake : ℕ → Wake n} {s : State n} (h : Agrees s)
    (hx : ∀ i sw, (wake i).powerOn = some sw → ∀ j, (sw.clk j).Exact) (hl : Wakeable wake s) :
    Agrees (rocketDevfreqHoldAll wake s).2 := by
  have hkept : Kept s (holdUpTo wake n s).2 := by
    apply holdUpTo_keeps_bound (P := Kept s) _ _ n ⟨rfl, h, id⟩
    · intro i d t hd ht
      exact ht.power (hx i) fun sw hsw => hl i d sw hd hsw
    · intro t held ht
      exact ⟨ht.wiring, ⟨ht.agrees.reqRate, ht.agrees.refsHeld⟩, ht.safe⟩
  exact hkept.agrees

/-- Before the publication and after the bookkeeping everything agrees; in between, and only
once the rate is written or rolled back, the request and the clock do. -/
def RaceInv (r : TargetRun n) : Prop :=
  match r.pc with
  | .published _ _ | .writeFailed _ _ => True
  | .settling _ => r.s.df.reqRate = r.s.clock
  | _ => Agrees r.s

theorem RaceInv.of_agrees {r : TargetRun n} (h : Agrees r.s) : RaceInv r := by
  unfold RaceInv
  split
  · trivial
  · trivial
  · exact h.reqRate
  · exact h

theorem settleRefs_agrees {s : State n} (h : s.df.reqRate = s.clock) : Agrees (settleRefs s) := by
  rw [settleRefs_eq]
  refine ⟨h, fun hlt => ?_⟩
  rw [← h] at hlt
  exact decide_eq_true hlt

theorem RaceInv.advance {r : TargetRun n} {env : TargetEnv n} (h : RaceInv r)
    (hx : RaceEv.Exact (.advance env)) (hu : Undropped r (.advance env)) :
    RaceInv (r.advance env) := by
  obtain ⟨s, pc⟩ := r
  cases pc with
  | entered opp =>
    have hs : Agrees s := h
    cases opp with
    | error e => exact hs
    | ok freq =>
      rw [TargetRun.advance]
      split
      · exact hs
      · exact hs
  | gated freq =>
    have hs : Agrees (rocketDevfreqHoldAll env.wake s).2 := holdAll_agrees h hx.2 hu
    rw [TargetRun.advance]
    split
    · next heq =>
      rw [heq] at hs
      exact hs
    · next heq =>
      rw [heq] at hs
      exact hs
  | awake freq => trivial
  | published freq old =>
    have hpub : (∃ got, env.clk freq = .ok got) → s.df.reqRate = freq := hu
    rw [TargetRun.advance, clkSetRate]
    cases hclk : env.clk freq with
    | error e => trivial
    | ok got =>
      -- the request that was published is still there when the clock gets its rate
      change s.df.reqRate = got
      rw [hpub ⟨got, hclk⟩, hx.1 freq got hclk]
  | writeFailed old e =>
    have hold : s.clock = old := hu
    exact hold.symm
  | settling ret => exact settleRefs_agrees h
  | returned ret => exact h

theorem RaceInv.notify {r : TargetRun n} {clk : ClkReply} (h : RaceInv r) (hx : clk.Exact)
    (hl : Lowerable clk r.s) (stale : Option (Fin n)) (i : ℕ) (action : GenpdAction) :
    RaceInv ⟨(rocketDfNotify clk stale i action r.s).2, r.pc⟩ := by
  rcases rocketDfNotify_cases clk stale i action r.s with he | he
  · rw [he]
    exact h
  · rw [he, makeSafe_lowerable hx hl]
    exact .of_agrees (agrees_safe rfl rfl)

theorem raceInv_of_reachable {r : TargetRun n}
    (h : Reachable RaceStart (restrict RaceStep Undropped) r) : RaceInv r := by
  refine h.invariant ?_ ?_
  · rintro ⟨s, pc⟩ ⟨_, hreq, hrefs⟩
    exact .of_agrees ⟨hreq, hrefs.mpr⟩
  · rintro r e t hr ⟨⟨hx, rfl⟩, hu⟩
    cases e with
    | advance env => exact hr.advance hx hu
    | notify clk stale i action => exact hr.notify hx hu stale i action

/-- While no step trips over a dropped boost, the run returns with the request, the clock and
the references in agreement. -/
theorem agrees_of_undropped {r : TargetRun n} {ret : Except Errno ℕ}
    (h : Reachable RaceStart (restrict RaceStep Undropped) r) (hret : r.pc = .returned ret) :
    r.s.df.reqRate = r.s.clock ∧ (rocketSafeRate < r.s.clock → r.s.df.refsHeld = true) := by
  have hinv := raceInv_of_reachable h
  unfold RaceInv at hinv
  rw [hret] at hinv
  exact ⟨hinv.reqRate, hinv.refsHeld⟩

/-- Where the condition of the write or of the rollback fails, the run, left alone from there,
returns with a request that is not the clock rate. -/
theorem disagrees_of_dropped {r : TargetRun n} {env : TargetEnv n} (hx : env.clk.Exact)
    (hpc : (∃ freq old, r.pc = .published freq old) ∨ ∃ old e, r.pc = .writeFailed old e)
    (hu : ¬ Undropped r (.advance env)) :
    ((TargetRun.advance env)^[2] r).s.df.reqRate ≠ ((TargetRun.advance env)^[2] r).s.clock := by
  obtain ⟨s, pc⟩ := r
  rcases hpc with ⟨freq, old, hpc⟩ | ⟨old, e, hpc⟩
  · change pc = _ at hpc
    subst hpc
    obtain ⟨⟨got, hclk⟩, hne⟩ := Classical.not_imp.mp hu
    have hgot := hx freq got hclk
    change ((TargetRun.advance env) (TargetRun.advance env ⟨s, .published freq old⟩)).s.df.reqRate ≠
      ((TargetRun.advance env) (TargetRun.advance env ⟨s, .published freq old⟩)).s.clock
    rw [TargetRun.advance, clkSetRate, hclk]
    change (settleRefs _).df.reqRate ≠ (settleRefs _).clock
    rw [settleRefs_eq]
    change s.df.reqRate ≠ got
    rwa [hgot]
  · change pc = _ at hpc
    subst hpc
    have hne : s.clock ≠ old := hu
    change (settleRefs (s.setReqRate old)).df.reqRate ≠ (settleRefs (s.setReqRate old)).clock
    rw [settleRefs_eq]
    exact hne.symm

theorem clkReply_ok_exact : ClkReply.Exact .ok := by
  intro rate got h
  exact (Except.ok.inj h).symm

theorem raceStep_smooth (r : TargetRun n) : RaceStep r (.advance .smooth) (r.advance .smooth) :=
  ⟨⟨clkReply_ok_exact, fun _ _ h => by cases h⟩, rfl⟩

theorem raceStep_notify (r : TargetRun n) (i : ℕ) :
    RaceStep r (.notify .ok none i .preOff) (RaceEv.run (.notify .ok none i .preOff) r) :=
  ⟨clkReply_ok_exact, rfl⟩

/-- A boost to 300 MHz of one core, after some steps of its own. -/
def boosting (k : ℕ) : TargetRun 1 :=
  (TargetRun.advance .smooth)^[k] ⟨probedState, .entered (.ok 300000000)⟩

theorem boosting_start : RaceStart (boosting 0) := ⟨⟨_, rfl⟩, by decide⟩

/-- The boost is dropped after `k` of its own steps, and `l` more follow. -/
def droppedAt (k l : ℕ) : TargetRun 1 :=
  (TargetRun.advance .smooth)^[l] (RaceEv.run (.notify .ok none 0 .preOff) (boosting k))

theorem agrees_droppedAt : (droppedAt 4 1).s.clock = rocketSafeRate ∧
    (droppedAt 4 1).s.df.reqRate = (droppedAt 4 1).s.clock ∧
      (rocketSafeRate < (droppedAt 4 1).s.clock → (droppedAt 4 1).s.df.refsHeld = true) := by
  have h0 : Reachable RaceStart (restrict RaceStep Undropped) (boosting 0) :=
    .start boosting_start
  have h1 := h0.step ⟨raceStep_smooth _, trivial⟩
  have h2 := h1.step ⟨raceStep_smooth _, fun _ _ _ _ h => by cases h⟩
  have h3 := h2.step ⟨raceStep_smooth _, trivial⟩
  have h4 := h3.step ⟨raceStep_smooth _, fun _ => rfl⟩
  have h5 := h4.step ⟨raceStep_notify _ 0, .inr ⟨_, rfl⟩⟩
  have h6 : Reachable RaceStart (restrict RaceStep Undropped) (droppedAt 4 1) :=
    h5.step ⟨raceStep_smooth _, trivial⟩
  have hret : (droppedAt 4 1).pc = .returned (.ok 300000000) := by decide
  exact ⟨by decide, agrees_of_undropped h6 hret⟩

/-- The boost is dropped between the publication and the write, which goes through. -/
theorem not_agrees_droppedAt : Reachable RaceStart RaceStep (droppedAt 3 2) ∧
    (droppedAt 3 2).pc = .returned (.ok 300000000) ∧ (droppedAt 3 2).s.clock = 300000000 ∧
      ¬ ((droppedAt 3 2).s.df.reqRate = (droppedAt 3 2).s.clock ∧
        (rocketSafeRate < (droppedAt 3 2).s.clock → (droppedAt 3 2).s.df.refsHeld = true)) := by
  have h3 : Reachable RaceStart RaceStep (boosting 3) :=
    Reachable.iterate raceStep_smooth (.start boosting_start) 3
  have h5 := Reachable.iterate raceStep_smooth (h3.step (raceStep_notify _ 0)) 2
  exact ⟨h5, by decide⟩

end RocketNpu.Devfreq
