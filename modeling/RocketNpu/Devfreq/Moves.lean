import RocketNpu.Devfreq.BoostGuard
import RocketNpu.Devfreq.Outcome

namespace RocketNpu.Devfreq
open Runs

variable {n : ℕ}

/-- A change that leaves the rail alone, and clock and request too or else the clock no higher
than the safe rate. -/
structure Calm (s t : State n) : Prop where
  rail : t.rail = s.rail
  rates : t.clock = s.clock ∧ t.df.reqRate = s.df.reqRate ∨
    t.clock ≤ rocketSafeRate ∧ (t.clock = s.clock ∨ t.clock = rocketSafeRate)

theorem Calm.of_eq {s t : State n} (hrail : t.rail = s.rail) (hclock : t.clock = s.clock)
    (hreq : t.df.reqRate = s.df.reqRate) : Calm s t :=
  ⟨hrail, .inl ⟨hclock, hreq⟩⟩

theorem Calm.refl (s : State n) : Calm s s := .of_eq rfl rfl rfl

theorem Calm.of_safe {s t : State n} (hrail : t.rail = s.rail) (hclock : t.clock = rocketSafeRate) :
    Calm s t :=
  ⟨hrail, .inr ⟨hclock.le, .inr hclock⟩⟩

theorem Calm.trans {s t u : State n} (h : Calm s t) (k : Calm t u) : Calm s u := by
  refine ⟨k.rail.trans h.rail, ?_⟩
  rcases k.rates with ⟨kc, kr⟩ | ⟨kl, kc⟩
  · rw [kc, kr]
    exact h.rates
  · refine .inr ⟨kl, ?_⟩
    rcases kc with kc | kc
    · rw [kc]
      rcases h.rates with ⟨hc, -⟩ | ⟨-, hc⟩
      · exact .inl hc
      · exact hc
    · exact .inr kc

theorem Calm.clock {s t : State n} (h : Calm s t) :
    t.clock = s.clock ∨ t.clock = rocketSafeRate := by
  rcases h.rates with ⟨hc, -⟩ | ⟨-, hc⟩
  · exact .inl hc
  · exact hc

theorem rocketDfNotify_calm {clk : ClkReply} (hclk : SafeExact clk) (stale : Option (Fin n))
    (i : ℕ) (action : GenpdAction) (s : State n) :
    Calm s (rocketDfNotify clk stale i action s).2 := by
  rcases rocketDfNotify_cases clk stale i action s with h | h
  · rw [h]
    exact .refl s
  · rw [h, makeSafe_eq hclk]
    exact .of_safe rfl rfl

theorem genpdSwitch_calm {env : SwitchEnv n} (h : env.SafeExact) (d : Fin n) (up : Bool)
    (s : State n) : Calm s (genpdSwitch env d up s).2 := by
  apply genpdSwitch_keeps (P := Calm s) _ _ (.refl s)
  · exact fun i _ t ht => ht.trans (rocketDfNotify_calm (h i) (env.stale i) i _ t)
  · exact fun t l ht => ht.trans (.of_eq rfl rfl rfl)

theorem Wake.power_calm {w : Wake n} (h : w.SafeExact) (d : Fin n) (s : State n) :
    Calm s (w.power d s).2 := by
  unfold Wake.power
  split
  · exact .refl s
  · next env heq => exact genpdSwitch_calm (h env heq) d true s

theorem holdUpTo_calm {wake : ℕ → Wake n} (h : ∀ i, (wake i).SafeExact) (k : ℕ) (s : State n) :
    Calm s (holdUpTo wake k s).2 := by
  apply holdUpTo_keeps (P := Calm s) _ _ k (.refl s)
  · exact fun i d t ht => ht.trans ((wake i).power_calm (h i) d t)
  · exact fun t l ht => ht.trans (.of_eq rfl rfl rfl)

theorem rocketDfArmNotifiers_calm (reply : ℕ → Option Errno) (a : ℕ) (s : State n) :
    Calm s (rocketDfArmNotifiers reply a s) := by
  unfold rocketDfArmNotifiers
  induction min n rocketDfMaxNb with
  | zero => exact .refl s
  | succ k ih =>
    unfold armUpTo
    apply ih.trans
    rcases armSlot_cases (reply k) a k (armUpTo reply a k s) with h | ⟨d, -, -, h | h⟩
    · rw [h]
      exact .refl _
    · rw [h]
      exact .of_eq rfl rfl rfl
    · rw [h]
      exact .of_eq rfl rfl rfl

theorem rocketDfDisarmNotifiers_calm (reply : ℕ → Option Errno) (stale : ℕ → Option (Fin n))
    (s : State n) : Calm s (rocketDfDisarmNotifiers reply stale s) := by
  unfold rocketDfDisarmNotifiers
  induction rocketDfMaxNb with
  | zero => exact .refl s
  | succ k ih =>
    unfold disarmUpTo
    apply ih.trans
    rcases disarmSlot_cases (reply k) (stale k) k (disarmUpTo reply stale k s) with
      h | ⟨d, m, _, _, h⟩
    · rw [h]
      exact .refl _
    · rw [h]
      exact .of_eq rfl rfl rfl

theorem unbindSlot_calm (i : ℕ) (s : State n) : Calm s (unbindSlot i s) := by
  unfold unbindSlot
  dsimp only
  split_ifs
  · exact .of_eq rfl rfl rfl
  · exact .of_eq rfl rfl rfl

theorem rocketCoreInit_calm {env : CoreInitEnv n} (hw : env.wake.SafeExact) (d : Fin n)
    (s : State n) : Calm s (rocketCoreInit env d s).2 := by
  rcases rocketCoreInit_cases env d s with ⟨e, h⟩ | ⟨e, h⟩ | h
  · rw [h]
    exact .refl s
  · rw [h]
    exact env.wake.power_calm hw d s
  · rw [h]
    exact env.wake.power_calm hw d s

/-- The request is forgotten only at the safe rate. -/
theorem initAtSafeRate_calm (env : InitEnv n) (core : CorePtr) {s : State n}
    (hs : s.clock = rocketSafeRate) : Calm s (initAtSafeRate env core s) := by
  unfold initAtSafeRate
  dsimp only
  split_ifs
  · exact .of_eq rfl rfl rfl
  · exact .of_safe rfl hs
  · have harm := rocketDfArmNotifiers_calm env.notifier core.rdev
      { s with
        busyLastRead := env.now
        df.reg := env.reg
        df.core := some core
        df.reqRate := rocketSafeRate
        df.refsHeld := false }
    have hreset : Calm s { s with
        busyLastRead := env.now
        df.reg := env.reg
        df.core := some core
        df.reqRate := rocketSafeRate
        df.refsHeld := false } := .of_safe rfl hs
    exact (hreset.trans harm).trans (.of_eq rfl rfl rfl)

theorem rocketDevfreqInit_calm {env : InitEnv n} (hw : env.wake.SafeExact) (core : CorePtr)
    (d : Fin n) (s : State n) : Calm s (rocketDevfreqInit env core d s) := by
  have hp := env.wake.power_calm hw d s
  unfold rocketDevfreqInit
  split_ifs
  · exact .refl s
  · rcases pmRuntimeResumeAndGet_cases env.wake d s with ⟨e, h⟩ | ⟨_, h⟩
    · rw [h]
      exact hp
    · rw [h]
      simp only [pmRuntimePut_addHeld]
      split_ifs with hc
      · exact hp
      · exact hp.trans (initAtSafeRate_calm env core (not_not.mp hc))

theorem endProbe_calm {env : InitEnv n} (hw : env.wake.SafeExact) (core : CorePtr) (d : Fin n)
    (s : State n) : Calm s (endProbe env core d s) := by
  unfold endProbe rocketDevfreqCoreAdded
  split_ifs
  · exact rocketDevfreqInit_calm hw core d s
  · exact rocketDfArmNotifiers_calm env.notifier core.rdev s
  · exact .refl s

theorem claimSlot_calm {env : ProbeEnv n} (hw : env.coreInit.wake.SafeExact) (a : ℕ) (d : Fin n)
    (s : State n) : Calm s (claimSlot env a d s).s := by
  unfold claimSlot
  split
  · exact .refl s
  · next i _ =>
    have hbind : Calm s { s.setDev i (some d) with numCores := s.numCores + 1 } :=
      .of_eq rfl rfl rfl
    have hinit := hbind.trans (rocketCoreInit_calm hw d _)
    split
    · next heq => simpa only [heq] using hinit
    · next heq =>
      rw [heq] at hinit
      exact hinit.trans (unbindSlot_calm i _)

theorem attachAndProbe_calm {env : ProbeEnv n} {d : Fin n} {s : State n}
    (ha : (Op.probe env d).Admissible s) : Calm s (attachAndProbe env d s).2 := by
  obtain ⟨-, hcore, hinit⟩ := ha
  rw [attachAndProbe_eq]
  have hclaim {t : State n} (a : ℕ) (ht : Calm s t) : Calm s (claimSlot env a d t).s :=
    ht.trans (claimSlot_calm hcore a d t)
  have hbegin : Calm s (beginProbe env d s).s := by
    unfold beginProbe
    dsimp only
    split
    · exact hclaim _ (.of_eq rfl rfl rfl)
    · exact .of_eq rfl rfl rfl
    · exact hclaim _ (.of_eq rfl rfl rfl)
  unfold Calls.endProbe
  split
  · next core e _ => exact hbegin.trans (endProbe_calm hinit core e _)
  · exact hbegin

/-- By the time devfreq loses its owner the core that goes has made the clock safe. -/
theorem rocketDevfreqFini_calm {env : FiniEnv n} (hclk : SafeExact env.clk) (core : CorePtr)
    {s : State n} (hs : s.df.core.isSome → s.clock = rocketSafeRate) :
    Calm s (rocketDevfreqFini env core s) := by
  unfold rocketDevfreqFini
  split_ifs with hown
  · have hsafe : s.clock = rocketSafeRate := hs (by simp [hown.2])
    refine Calm.trans ?_ (rocketDfDisarmNotifiers_calm _ _ _)
    rw [finiLocked_eq hclk]
    refine .of_safe rfl ?_
    dsimp only
    split_ifs
    · rfl
    · exact hsafe
  · exact .refl s

theorem rocketRemove_calm {env : RemoveEnv n} {d : Fin n} {s : State n}
    (ha : (Op.remove env d).Admissible s) : Calm s (rocketRemove env d s) := by
  obtain ⟨hclk, hfini⟩ := ha
  have hlocked : Calm s (coreRemovedLocked env.clk s) ∧
      ((coreRemovedLocked env.clk s).df.core.isSome →
        (coreRemovedLocked env.clk s).clock = rocketSafeRate) := by
    rw [coreRemovedLocked_eq hclk]
    split_ifs with hnone
    · exact ⟨.refl s, fun h => by simp [Option.isNone_iff_eq_none.mp hnone] at h⟩
    · exact ⟨.of_safe rfl rfl, fun _ => rfl⟩
  unfold rocketRemove
  split
  · next a i _ _ =>
    have hsame := coreRemovedUnregister_same env.notifier ⟨a, i⟩ d (coreRemovedLocked env.clk s)
    have hunreg : Calm (coreRemovedLocked env.clk s)
        (rocketDevfreqCoreRemoved env.clk env.notifier ⟨a, i⟩ d s) := by
      unfold rocketDevfreqCoreRemoved
      rcases coreRemovedUnregister_cases env.notifier ⟨a, i⟩ d (coreRemovedLocked env.clk s) with
        ⟨-, h⟩ | ⟨j, -, h | ⟨k, h⟩⟩
      · rw [h]
        exact .refl _
      · rw [h]
        exact .of_eq rfl rfl rfl
      · rw [h]
        exact .of_eq rfl rfl rfl
    refine (hlocked.1.trans hunreg).trans (Calm.trans ?_ (unbindSlot_calm i _))
    apply rocketDevfreqFini_calm hfini
    intro hsome
    exact hsame.clock.trans (hlocked.2 (hsame.core ▸ hsome))
  · exact .refl s

theorem suspendDevice_calm {clk : ClkReply} (hclk : SafeExact clk) (d : Fin n) (s : State n) :
    Calm s (suspendDevice clk d s) := by
  unfold suspendDevice rocketDevfreqSuspend
  split
  · rw [clkSetRate_safe hclk]
    split_ifs
    · exact .of_safe rfl rfl
    · exact .refl s
  · exact .refl s

/-- A target call goes through: the clock is where the reply says, and the rate is published. -/
structure Sets (env : TargetEnv n) (freq : ℕ) (s t : State n) : Prop where
  passes : Passes freq s
  clock : env.clk freq = .ok t.clock
  reqRate : t.df.reqRate = freq
  rail : t.rail = s.rail

theorem rocketDevfreqTarget_moves {env : TargetEnv n} {opp : Except Errno ℕ} {s : State n}
    (hw : ∀ i, (env.wake i).SafeExact) :
    Calm s (rocketDevfreqTarget env opp s).2 ∨
      ∃ freq, opp = .ok freq ∧ Sets env freq s (rocketDevfreqTarget env opp s).2 := by
  have hheld := holdUpTo_calm hw n s
  cases opp with
  | error e => exact .inl (.refl s)
  | ok freq =>
    rw [show rocketDevfreqTarget env (.ok freq) s = targetLocked env freq s from rfl]
    rcases targetLocked_cases env freq s with h | ⟨hp, ⟨e, t, hh, h⟩ | ⟨t, hh, h⟩⟩
    · rw [h]
      exact .inl (.refl s)
    · rw [show holdUpTo env.wake n s = _ from hh] at hheld
      rw [h]
      exact .inl hheld
    · rw [show holdUpTo env.wake n s = _ from hh] at hheld
      rw [h]
      unfold changeRate clkSetRate
      cases hr : env.clk freq with
      | error e =>
        simp only [settleRefs_eq]
        exact .inl (hheld.trans (.of_eq rfl rfl rfl))
      | ok got =>
        simp only [settleRefs_eq]
        exact .inr ⟨freq, rfl, hp, hr, rfl, hheld.rail⟩

/-- What a completed call can do to clock, request and rail. -/
inductive Moves (s : State n) : Op n → State n → Prop where
  | calm {op : Op n} {t : State n} : Calm s t → Moves s op t
  | sets {env : TargetEnv n} {freq : ℕ} {t : State n} : Sets env freq s t →
      Moves s (.target env (.ok freq)) t
  | rail (uv : ℤ) : Moves s (.rail uv) { s with rail := uv }

theorem Op.run_moves {op : Op n} {s : State n} (ha : op.Admissible s) : Moves s op (op.run s) := by
  cases op with
  | probe env d => exact .calm (attachAndProbe_calm ha)
  | remove env d => exact .calm (rocketRemove_calm ha)
  | target env opp =>
    have hmoves : Calm s (rocketDevfreqTarget env opp s).2 ∨ _ := rocketDevfreqTarget_moves ha.1
    rcases hmoves with h | ⟨freq, rfl, h⟩
    · exact .calm h
    · exact .sets h
  | notify clk stale i action => exact .calm (rocketDfNotify_calm ha stale i action s)
  | genpd env d up => exact .calm (genpdSwitch_calm ha d up s)
  | suspend clk d => exact .calm (suspendDevice_calm ha d s)
  | rail uv => exact .rail uv

end RocketNpu.Devfreq
