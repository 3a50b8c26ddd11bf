import RocketNpu.Devfreq.BoostGuard
import RocketNpu.Devfreq.Calls
import RocketNpu.Busy.Counters

namespace RocketNpu.Devfreq
open Runs

variable {n : ℕ}

/-- No power domain has to come up for a core that is bound. -/
def Awake (wake : ℕ → Wake n) (s : State n) : Prop :=
  ∀ i, (s.cores i).isSome → (wake i).powerOn = none

/-- At the safe rate a notifier has nothing to do. -/
theorem makeSafe_of_safe {s : State n} (hc : s.clock = rocketSafeRate)
    (hr : s.df.reqRate = rocketSafeRate) (clk : ClkReply) : makeSafe clk s = (.ok (), s) := by
  simp [makeSafe, lowerClock, hc, dropRequest, hr]

theorem notifyChain_of_safe {s : State n} (hc : s.clock = rocketSafeRate)
    (hr : s.df.reqRate = rocketSafeRate) (env : SwitchEnv n) (action : GenpdAction)
    (l : List ℕ) : notifyChain env action l s = (.ok (), s) := by
  induction l with
  | nil => rfl
  | cons i is ih =>
    have hi : rocketDfNotify (env.clk i) (env.stale i) i action s = (.ok (), s) := by
      rcases rocketDfNotify_cases (env.clk i) (env.stale i) i action s with h | h
      · exact h
      · rw [h, makeSafe_of_safe hc hr]
    unfold notifyChain
    rw [hi]
    exact ih

/-- The rates, the flags and the owner are as they were. -/
structure SameRates (s t : State n) : Prop where
  clock : t.clock = s.clock
  df : t.df = s.df

theorem SameRates.refl (s : State n) : SameRates s s := ⟨rfl, rfl⟩

theorem Wake.power_sameRates {w : Wake n} {d : Fin n} {s : State n}
    (h : w.powerOn = none ∨ s.clock = rocketSafeRate ∧ s.df.reqRate = rocketSafeRate) :
    SameRates s (w.power d s).2 := by
  unfold Wake.power
  split
  · exact .refl s
  · next env heq =>
    rcases h with h | ⟨hc, hr⟩
    · exact absurd (heq.symm.trans h) (by simp)
    · unfold genpdSwitch
      rw [notifyChain_of_safe hc hr]
      exact ⟨rfl, rfl⟩

/-- Waking the bound cores leaves the rates alone if they are awake, and if the component is
at the safe rate. -/
theorem holdAll_sameRates {wake : ℕ → Wake n} {s : State n}
    (h : Awake wake s ∨ s.clock = rocketSafeRate ∧ s.df.reqRate = rocketSafeRate) :
    SameRates s (rocketDevfreqHoldAll wake s).2 := by
  apply holdUpTo_keeps_bound (P := SameRates s) (fun i d t hd ht => ?_)
    (fun t k ht => ⟨ht.clock, ht.df⟩) n (.refl s)
  have hp : SameRates t ((wake i).power d t).2 := by
    apply Wake.power_sameRates
    rcases h with h | ⟨hc, hr⟩
    · exact .inl (h i (by simp [hd]))
    · exact .inr ⟨ht.clock.trans hc, (congrArg RocketDf.reqRate ht.df).trans hr⟩
  exact ⟨hp.clock.trans ht.clock, hp.df.trans ht.df⟩

/-- What is asked of the clock is always a rate of the OPP table. -/
def InTable (s : State n) : Prop := s.df.reqRate ∈ oppTable

theorem InTable.of_drop {s t : State n} (hs : InTable s)
    (h : t.df.reqRate = s.df.reqRate ∨ t.df.reqRate = rocketSafeRate) : InTable t := by
  unfold InTable at hs ⊢
  rcases h with h | h
  · rwa [h]
  · rw [h]
    exact List.mem_cons_self

theorem InTable.of_frame {s t : State n} (hs : InTable s) (h : Frame s t) : InTable t :=
  hs.of_drop h.reqRate

theorem rocketDfArmNotifiers_reqRate (reply : ℕ → Option Errno) (a : ℕ) (s : State n) :
    (rocketDfArmNotifiers reply a s).df.reqRate = s.df.reqRate := by
  unfold rocketDfArmNotifiers
  induction min n rocketDfMaxNb with
  | zero => rfl
  | succ k ih =>
    unfold armUpTo
    rcases armSlot_cases (reply k) a k (armUpTo reply a k s) with h | ⟨d, -, -, h | h⟩
    · rwa [h]
    · rwa [h]
    · rwa [h]

theorem rocketDfDisarmNotifiers_reqRate (reply : ℕ → Option Errno)
    (stale : ℕ → Option (Fin n)) (s : State n) :
    (rocketDfDisarmNotifiers reply stale s).df.reqRate = s.df.reqRate := by
  unfold rocketDfDisarmNotifiers
  induction rocketDfMaxNb with
  | zero => rfl
  | succ k ih =>
    unfold disarmUpTo
    rcases disarmSlot_cases (reply k) (stale k) k (disarmUpTo reply stale k s) with
      h | ⟨d, m, _, _, h⟩
    · rwa [h]
    · rwa [h]

theorem rocketDevfreqInit_inTable {env : InitEnv n} {core : CorePtr} {d : Fin n} {s : State n}
    (hs : InTable s) : InTable (rocketDevfreqInit env core d s) := by
  have hp : InTable (env.wake.power d s).2 := hs.of_frame (env.wake.power_frame d s)
  unfold rocketDevfreqInit
  split_ifs with hc
  · exact hs
  · rcases pmRuntimeResumeAndGet_cases env.wake d s with ⟨e, h⟩ | ⟨_, h⟩
    · rw [h]
      exact hp
    · rw [h]
      simp only [pmRuntimePut_addHeld]
      unfold initAtSafeRate
      dsimp only
      split_ifs
      · exact hp
      · exact hp
      · exact hp.of_drop (.inr rfl)
      · exact hp.of_drop (.inr (rocketDfArmNotifiers_reqRate env.notifier core.rdev _))

theorem endProbe_inTable {env : InitEnv n} {core : CorePtr} {d : Fin n} {s : State n}
    (hs : InTable s) : InTable (endProbe env core d s) := by
  unfold endProbe rocketDevfreqCoreAdded
  split_ifs
  · exact rocketDevfreqInit_inTable hs
  · exact hs.of_drop (.inl (rocketDfArmNotifiers_reqRate env.notifier core.rdev s))
  · exact hs

theorem unbindSlot_inTable (i : ℕ) {s : State n} (hs : InTable s) : InTable (unbindSlot i s) := by
  apply hs.of_drop (.inl _)
  unfold unbindSlot
  dsimp only
  split_ifs <;> rfl

theorem claimSlot_inTable {env : ProbeEnv n} {a : ℕ} {d : Fin n} {s : State n}
    (hs : InTable s) : InTable (claimSlot env a d s).s := by
  unfold claimSlot
  split
  · exact hs
  · next i _ =>
    have hbind : InTable { s.setDev i (some d) with numCores := s.numCores + 1 } := hs
    have hinit := hbind.of_frame (rocketCoreInit_frame env.coreInit d _)
    split
    · next heq => simpa only [heq] using hinit
    · next heq =>
      rw [heq] at hinit
      exact unbindSlot_inTable i hinit

theorem attachAndProbe_inTable {env : ProbeEnv n} {d : Fin n} {s : State n} (hs : InTable s) :
    InTable (attachAndProbe env d s).2 := by
  rw [attachAndProbe_eq]
  have hbegin : InTable (beginProbe env d s).s := by
    unfold beginProbe
    dsimp only
    split
    · exact claimSlot_inTable hs
    · exact hs
    · exact claimSlot_inTable hs
  unfold Calls.endProbe
  split
  · exact endProbe_inTable hbegin
  · exact hbegin

theorem rocketDevfreqCoreRemoved_inTable {clk : ClkReply} {reply : Option Errno}
    {core : CorePtr} {d : Fin n} {s : State n} (hs : InTable s) :
    InTable (rocketDevfreqCoreRemoved clk reply core d s) := by
  have hlocked : InTable (coreRemovedLocked clk s) := by
    rcases coreRemovedLocked_cases clk s with ⟨-, h⟩ | ⟨c, u, -, h⟩
    · rwa [h]
    · rw [h]
      exact hs.of_drop (.inr rfl)
  unfold rocketDevfreqCoreRemoved
  rcases coreRemovedUnregister_cases reply core d (coreRemovedLocked clk s) with
    ⟨-, h⟩ | ⟨j, -, h | ⟨k, h⟩⟩
  · rwa [h]
  · rwa [h]
  · rwa [h]

theorem rocketDevfreqFini_inTable {env : FiniEnv n} {core : CorePtr} {s : State n}
    (hs : InTable s) : InTable (rocketDevfreqFini env core s) := by
  unfold rocketDevfreqFini
  split_ifs
  · obtain ⟨c, h⟩ := finiLocked_cases env.clk env.suspended { s with df.cdev := false }
    apply hs.of_drop (.inr _)
    rw [rocketDfDisarmNotifiers_reqRate, h]
    rfl
  · exact hs

theorem rocketDevfreqTarget_inTable {env : TargetEnv n} {opp : Except Errno ℕ} {s : State n}
    (hopp : ∀ freq, opp = .ok freq → freq ∈ oppTable) (hs : InTable s) :
    InTable (rocketDevfreqTarget env opp s).2 := by
  cases opp with
  | error e => exact hs
  | ok freq =>
    change InTable (targetLocked env freq s).2
    rcases targetLocked_cases env freq s with h | ⟨_, ⟨e, t, hh, h⟩ | ⟨t, hh, h⟩⟩
    · rwa [h]
    · rw [h]
      exact hs.of_frame (holdAll_error hh)
    · rw [h]
      have ht : InTable t := hs.of_drop (holdAll_ok hh).1.reqRate
      unfold changeRate clkSetRate
      cases env.clk freq with
      | error e =>
        simp only [settleRefs_eq]
        exact ht
      | ok got =>
        simp only [settleRefs_eq]
        exact hopp freq rfl

theorem Op.run_inTable {op : Op n} {s : State n} (ha : op.Admissible s) (hs : InTable s) :
    InTable (op.run s) := by
  cases op with
  | probe env d => exact attachAndProbe_inTable hs
  | remove env d =>
    unfold Op.run rocketRemove
    dsimp only
    split
    · exact unbindSlot_inTable _
        (rocketDevfreqFini_inTable (rocketDevfreqCoreRemoved_inTable hs))
    · exact hs
  | target env opp => exact rocketDevfreqTarget_inTable ha.2.2 hs
  | notify clk stale i action => exact hs.of_frame (rocketDfNotify_frame clk stale i action s)
  | genpd env d up => exact hs.of_frame (genpdSwitch_frame env d up s)
  | suspend clk d => exact hs.of_frame (suspendDevice_frame clk d s)
  | rail uv => exact hs

theorem Reaches.inTable {s : State n} (h : Reaches s) : InTable s := by
  apply h.invariant
  · rintro s ⟨clock, rail, -, rfl⟩
    exact List.mem_cons_self
  · intro s op t hs ht
    exact ht.2 ▸ Op.run_inTable ht.1 hs

theorem Reaches.safeRate_le_reqRate {s : State n} (h : Reaches s) :
    rocketSafeRate ≤ s.df.reqRate :=
  safeRate_le_of_mem_oppTable h.inTable

/-- The devfreq state between calls on a clock whose safe rate always works. -/
structure Consistent (s : State n) : Prop where
  floor : rocketSafeRate ≤ s.df.reqRate
  refsHeld : s.df.refsHeld = true ↔ rocketSafeRate < s.df.reqRate
  clock : s.df.reqRate = rocketSafeRate → s.clock = rocketSafeRate

/-- The rollback publishes the old request again, and the bookkeeping that follows it puts
exactly the references that were taken for the call. -/
theorem settleRefs_rollback {s t : State n} (hs : Consistent s) (hd : t.df = s.df)
    (hb : boundBelow t n = boundBelow s n)
    (hh : t.held = fun d => s.held d + boundBelow s n d) :
    (settleRefs t).df = s.df ∧ (settleRefs t).held = s.held := by
  rw [settleRefs_eq, hd]
  have hflag : decide (rocketSafeRate < s.df.reqRate) = s.df.refsHeld := by
    rw [Bool.eq_iff_iff, decide_eq_true_iff]
    exact hs.refsHeld.symm
  refine ⟨by rw [hflag], ?_⟩
  funext d
  simp only [hh, hb, ← hs.refsHeld]
  split_ifs <;> omega

theorem changeRate_error {clk : ClkReply} {freq : ℕ} {s : State n} {e : Errno}
    (h : (changeRate clk freq s).1 = .error e) :
    (changeRate clk freq s).2 = settleRefs s := by
  unfold changeRate clkSetRate at h ⊢
  cases hclk : clk freq with
  | ok got => simp [hclk] at h
  | error e' =>
    have hback : (s.setReqRate freq).setReqRate s.df.reqRate = s := rfl
    simp only [hback]

/-- Whatever makes a call fail, it leaves the rates, the flags and every reference count as
it found them. -/
theorem target_unchanged_of_error {env : TargetEnv n} {opp : Except Errno ℕ} {s : State n}
    (hs : Consistent s) (hawake : s.df.refsHeld = true → Awake env.wake s) {e : Errno}
    (h : (rocketDevfreqTarget env opp s).1 = .error e) :
    (rocketDevfreqTarget env opp s).2.clock = s.clock ∧
      (rocketDevfreqTarget env opp s).2.df = s.df ∧
      (rocketDevfreqTarget env opp s).2.held = s.held := by
  cases opp with
  | error e' => exact ⟨rfl, rfl, rfl⟩
  | ok freq =>
    change (targetLocked env freq s).1 = .error e at h
    change (targetLocked env freq s).2.clock = s.clock ∧ (targetLocked env freq s).2.df = s.df ∧
      (targetLocked env freq s).2.held = s.held
    have hquiet : Awake env.wake s ∨ s.clock = rocketSafeRate ∧ s.df.reqRate = rocketSafeRate := by
      by_cases hr : s.df.refsHeld = true
      · exact .inl (hawake hr)
      · have hreq : s.df.reqRate = rocketSafeRate :=
          le_antisymm (not_lt.mp fun hlt => hr (hs.refsHeld.mpr hlt)) hs.floor
        exact .inr ⟨hs.clock hreq, hreq⟩
    have hsame := holdAll_sameRates hquiet
    rcases targetLocked_cases env freq s with he | ⟨_, ⟨e', t, hh, he⟩ | ⟨t, hh, he⟩⟩
    · rw [he]
      exact ⟨rfl, rfl, rfl⟩
    · rw [he]
      rw [hh] at hsame
      exact ⟨hsame.clock, hsame.df, (holdAll_error hh).held⟩
    · obtain ⟨hd, hheld⟩ := holdAll_ok hh
      rw [hh] at hsame
      rw [he] at h
      rw [he, changeRate_error h]
      obtain ⟨h1, h2⟩ := settleRefs_rollback hs hsame.df
        (funext fun d => boundBelow_congr hd.wiring n d) hheld
      refine ⟨?_, h1, h2⟩
      rw [settleRefs_eq]
      exact hsame.clock

def TargetEnv.clockFails : TargetEnv n := ⟨fun _ => .awake, fun _ => .error (.other 5)⟩

theorem target_unchanged_boosted :
    (rocketDevfreqTarget .clockFails (.ok 400000000) boostedCalls.s).2.clock = 300000000 ∧
      (rocketDevfreqTarget .clockFails (.ok 400000000) boostedCalls.s).2.held 0 = 1 := by
  have hs : Consistent boostedCalls.s := ⟨by decide, by decide, by decide⟩
  have herr : (rocketDevfreqTarget .clockFails (.ok 400000000) boostedCalls.s).1 =
      .error (.other 5) := by decide
  obtain ⟨h1, -, h3⟩ := target_unchanged_of_error hs (fun _ _ _ => rfl) herr
  rw [h1, h3]
  decide

/-- The value `rocket_devfreq_get_cur_freq` leaves in `*freq`. -/
def rocketDevfreqGetCurFreq (s : State n) : ℕ := s.df.reqRate

/-- `rocket_devfreq_get_dev_status`; every owner's device has the `max_cores` of the tree. -/
def getDevStatus (now : ℕ) (c : Busy.Counters) (s : State n) : Busy.DevStatus :=
  (Busy.rocketDevfreqGetDevStatus (s.df.core.map fun _ => n) s.df.reqRate now c).1

theorem getDevStatus_currentFrequency (now : ℕ) (c : Busy.Counters) (s : State n) :
    (getDevStatus now c s).currentFrequency = rocketDevfreqGetCurFreq s := rfl

/-- All views of the rate agree with the `*freq` of the call. -/
structure Reported (freq : ℕ) (s : State n) : Prop where
  clock : s.clock = freq
  curFreq : rocketDevfreqGetCurFreq s = freq
  devStatus : ∀ now c, (getDevStatus now c s).currentFrequency = freq

theorem reported_iff {freq : ℕ} {s : State n} :
    Reported freq s ↔ s.clock = freq ∧ s.df.reqRate = freq := by
  constructor
  · intro h
    exact ⟨h.clock, h.curFreq⟩
  · rintro ⟨hc, hr⟩
    refine ⟨hc, hr, fun now c => ?_⟩
    rw [getDevStatus_currentFrequency]
    exact hr

/-- A change that goes through leaves the rate the clock settled on in `*freq` and in the
clock, and the rate that was asked for in `req_rate`. -/
theorem changeRate_ok {clk : ClkReply} {freq got : ℕ} {s : State n}
    (h : (changeRate clk freq s).1 = .ok got) :
    clk freq = .ok got ∧ (changeRate clk freq s).2.clock = got ∧
      (changeRate clk freq s).2.df.reqRate = freq := by
  unfold changeRate clkSetRate at h ⊢
  cases hclk : clk freq with
  | error e => simp [hclk] at h
  | ok r =>
    simp only [hclk, Except.ok.injEq] at h
    subst h
    simp [settleRefs_eq, State.setReqRate]

theorem targetLocked_returned {env : TargetEnv n} {freq got : ℕ} {s : State n}
    (h : (targetLocked env freq s).1 = .ok got) :
    (EarlyExit freq s ∧ targetLocked env freq s = (.ok freq, s)) ∨
      ¬ EarlyExit freq s ∧ ∃ t, targetLocked env freq s = changeRate env.clk freq t := by
  unfold targetLocked at h ⊢
  split_ifs at h ⊢ with h1 h2
  · exact .inl ⟨h2, rfl⟩
  · refine .inr ⟨h2, ?_⟩
    split at h
    · cases h
    · next t heq => exact ⟨t, rfl⟩

/-- After a call that returns 0 the reports are true exactly if the clock was not touched,
or settled on the very rate it was asked for. -/
theorem reported_iff_exact {env : TargetEnv n} {opp : Except Errno ℕ} {s : State n} {got : ℕ}
    (h : (rocketDevfreqTarget env opp s).1 = .ok got) :
    Reported got (rocketDevfreqTarget env opp s).2 ↔
      ∃ freq, opp = .ok freq ∧ (EarlyExit freq s ∨ env.clk freq = .ok freq) := by
  cases opp with
  | error e => cases h
  | ok freq =>
    change (targetLocked env freq s).1 = .ok got at h
    change Reported got (targetLocked env freq s).2 ↔ _
    simp only [reported_iff, Except.ok.injEq, exists_eq_left']
    rcases targetLocked_returned h with ⟨hearly, he⟩ | ⟨hearly, t, he⟩
    · rw [he] at h ⊢
      cases h
      exact iff_of_true ⟨hearly.2.2, hearly.1.symm⟩ (.inl hearly)
    · rw [he] at h ⊢
      obtain ⟨hclk, hc, hr⟩ := changeRate_ok h
      rw [hc, hr, hclk, Except.ok.injEq]
      constructor
      · rintro ⟨-, heq⟩
        exact .inr heq.symm
      · rintro (h' | heq)
        · exact absurd h' hearly
        · exact ⟨rfl, heq.symm⟩

/-- One core, bound at the safe rate. -/
def probedState : State 1 :=
  (Op.probe (.smooth 0) ⟨0, Nat.one_pos⟩).run (.load rocketSafeRate 0)

theorem probedState_reaches : Reaches probedState := by
  have h0 : Reaches (State.load rocketSafeRate 0 : State 1) := .start ⟨_, _, le_refl _, rfl⟩
  exact h0.run (Op.probe_smooth_admissible 0 fun _ => by simp [State.load])

theorem reported_probed :
    Reported 300000000 (rocketDevfreqTarget .smooth (.ok 300000000) probedState).2 := by
  have hok : (rocketDevfreqTarget .smooth (.ok 300000000) probedState).1 = .ok 300000000 := by
    decide
  exact (reported_iff_exact hok).mpr ⟨300000000, rfl, .inr rfl⟩

/-- A clock that settles below 300 MHz when asked for it. -/
def TargetEnv.rounding : TargetEnv n :=
  ⟨fun _ => .awake, fun rate => .ok (if rate = 300000000 then 297000000 else rate)⟩

theorem not_reported :
    Reaches probedState ∧ (Op.target .rounding (.ok 300000000)).Admissible probedState ∧
      (rocketDevfreqTarget .rounding (.ok 300000000) probedState).1 = .ok 297000000 ∧
      ¬ Reported 297000000 (rocketDevfreqTarget .rounding (.ok 300000000) probedState).2 := by
  refine ⟨probedState_reaches, ⟨fun _ => Wake.awake_safeExact, rfl, ?_⟩, by decide, ?_⟩
  · intro freq hf
    cases hf
    decide
  · intro h
    exact absurd h.curFreq (by decide)

end RocketNpu.Devfreq
