import RocketNpu.Devfreq.Balance

namespace RocketNpu.Devfreq
open Runs

variable {n : ℕ}

theorem Inv.dropBoost {s : State n} (hs : Inv s) : Inv s.dropBoost :=
  ⟨⟨hs.safe.sound, fun h => absurd h (lt_irrefl _), hs.safe.switched⟩, hs.refs.dropBoost⟩

theorem coreRemovedLocked_eq {clk : ClkReply} (hclk : SafeExact clk) (s : State n) :
    coreRemovedLocked clk s = if s.df.core.isNone then s else s.dropBoost := by
  by_cases hc : s.df.core.isNone
  · simp [coreRemovedLocked, hc]
  · simp only [coreRemovedLocked, hc, lowerClock_safe hclk, State.dropBoost]
    cases hr : s.df.refsHeld with
    | false => simp [State.setReqRate, hr]
    | true => simp [State.setReqRate, State.setRefsHeld, rocketDevfreqReleaseAll_eq, boundBelow,
        hr]

/-- After the locked section of a removal there is no boost, owner or not. -/
theorem coreRemovedLocked_inv {clk : ClkReply} (hclk : SafeExact clk) {s : State n}
    (hs : Inv s) :
    Inv (coreRemovedLocked clk s) ∧ (coreRemovedLocked clk s).wiring = s.wiring ∧
      (coreRemovedLocked clk s).clock ≤ rocketSafeRate ∧
      (coreRemovedLocked clk s).df.refsHeld = false := by
  rw [coreRemovedLocked_eq hclk]
  split_ifs with hc
  · obtain ⟨h1, h2⟩ := hs.of_no_owner (by simpa using hc)
    exact ⟨hs, rfl, h1, h2⟩
  · exact ⟨hs.dropBoost, rfl, le_rfl, rfl⟩

theorem finiLocked_eq {clk : ClkReply} (hclk : SafeExact clk) (suspended : Bool)
    (s : State n) : finiLocked clk suspended s =
      { s.dropBoost with
        clock := if s.df.refsHeld || !suspended then rocketSafeRate else s.clock
        df.core := none } := by
  unfold finiLocked State.dropBoost
  cases hr : s.df.refsHeld with
  | true =>
    simp [State.setReqRate, State.setRefsHeld, hr, clkSetRate_safe hclk,
      rocketDevfreqReleaseAll_eq, boundBelow]
  | false =>
    cases suspended
    · simp [State.setReqRate, hr, clkSetRate_safe hclk]
    · simp [State.setReqRate, hr]

/-- On an exact clock `rocket_devfreq_fini` does not raise it, and switches no domain. -/
theorem rocketDevfreqFini_low {env : FiniEnv n} (hclk : SafeExact env.clk) (core : CorePtr)
    {s : State n} (hlow : s.clock ≤ rocketSafeRate) :
    (rocketDevfreqFini env core s).clock ≤ rocketSafeRate ∧
      (rocketDevfreqFini env core s).switches = s.switches := by
  unfold rocketDevfreqFini
  split_ifs
  · obtain ⟨h, -⟩ := rocketDfDisarmNotifiers_same env.notifier env.stale
      (finiLocked env.clk env.suspended { s with df.cdev := false })
    rw [h.clock, h.switches, finiLocked_eq hclk]
    refine ⟨?_, rfl⟩
    dsimp only
    split_ifs <;> omega
  · exact ⟨hlow, rfl⟩

theorem unbindSlot_inv {core : CorePtr} {d : Fin n} {s : State n} (hs : Balanced s)
    (hr : Removed core d s) (ho : core.idx = 0 → s.df.core = none)
    (hlow : s.clock ≤ rocketSafeRate) (hsw : ∀ r ∈ s.switches, r ≤ rocketSafeRate) :
    Inv (unbindSlot core.idx s) := by
  have h : (unbindSlot core.idx s).clock = s.clock ∧
      (unbindSlot core.idx s).switches = s.switches := by
    unfold unbindSlot
    dsimp only
    split_ifs <;> exact ⟨rfl, rfl⟩
  exact (unbindSlot_balanced hs hr ho).inv_of_low (h.1 ▸ hlow) (h.2 ▸ hsw)

theorem rocketRemove_inv {env : RemoveEnv n} {d : Fin n} {s : State n}
    (ha : (Op.remove env d).Admissible s) (hs : Inv s) : Inv (rocketRemove env d s) := by
  obtain ⟨hclk, hfini⟩ := ha
  unfold rocketRemove
  split
  · next a i hr hf =>
    have hb : Bound ⟨a, i⟩ d s := ⟨hr, findCoreForDev_some hf⟩
    obtain ⟨h1, -, hlow, -⟩ := coreRemovedLocked_inv hclk hs
    have hsame := coreRemovedUnregister_same env.notifier ⟨a, i⟩ d (coreRemovedLocked env.clk s)
    obtain ⟨hbal, hrem⟩ := rocketDevfreqCoreRemoved_balanced env.clk env.notifier hs.balanced hb
    obtain ⟨hbal', hrem', ho⟩ := rocketDevfreqFini_balanced env.fini hbal hrem
    unfold rocketDevfreqCoreRemoved at hbal' hrem' ho ⊢
    obtain ⟨hlow', hsw⟩ := rocketDevfreqFini_low hfini ⟨a, i⟩ (hsame.clock ▸ hlow)
    exact unbindSlot_inv hbal' hrem' ho hlow' (hsw ▸ hsame.switches ▸ h1.safe.switched)
  · exact hs

theorem Wake.power_inv {w : Wake n} (h : w.SafeExact) (d : Fin n) {s : State n}
    (hs : Inv s) : Inv (w.power d s).2 :=
  ⟨w.power_safe h d hs.safe, hs.refs.of_frame (w.power_frame d s)⟩

theorem rocketDfArmNotifiers_clock (reply : ℕ → Option Errno) (a : ℕ) (s : State n) :
    (rocketDfArmNotifiers reply a s).clock = s.clock ∧
      (rocketDfArmNotifiers reply a s).switches = s.switches := by
  unfold rocketDfArmNotifiers
  induction min n rocketDfMaxNb with
  | zero => exact ⟨rfl, rfl⟩
  | succ k ih =>
    unfold armUpTo
    rcases armSlot_cases (reply k) a k (armUpTo reply a k s) with h | ⟨d, -, -, h | h⟩
    · rwa [h]
    · rwa [h]
    · rwa [h]

theorem initAtSafeRate_clock (env : InitEnv n) (core : CorePtr) (s : State n) :
    (initAtSafeRate env core s).clock = s.clock ∧
      (initAtSafeRate env core s).switches = s.switches := by
  unfold initAtSafeRate
  dsimp only
  split_ifs
  · exact ⟨rfl, rfl⟩
  · exact ⟨rfl, rfl⟩
  · exact rocketDfArmNotifiers_clock env.notifier core.rdev _

theorem rocketDevfreqInit_inv {env : InitEnv n} (hw : env.wake.SafeExact) {core : CorePtr}
    {d : Fin n} {s : State n} (hs : Inv s) (hb : Bound core d s) (h0 : core.idx = 0) :
    Inv (rocketDevfreqInit env core d s) := by
  have hf := env.wake.power_frame d s
  have hpow := env.wake.power_inv hw d hs
  unfold rocketDevfreqInit
  split_ifs with hc
  · exact hs
  · have hcore : (env.wake.power d s).2.df.core = none :=
      (congrArg Wiring.core hf.wiring).trans (by simpa using hc)
    rcases pmRuntimeResumeAndGet_cases env.wake d s with ⟨e, h⟩ | ⟨_, h⟩
    · rw [h]
      exact hpow
    · rw [h]
      simp only [pmRuntimePut_addHeld]
      split_ifs
      · exact hpow
      · obtain ⟨h1, h2⟩ := initAtSafeRate_clock env core (env.wake.power d s).2
        exact (initAtSafeRate_balanced env hpow.balanced hcore (hb.of_frame hf) h0).inv_of_low
          (h1 ▸ (hpow.of_no_owner hcore).1) (h2 ▸ hpow.safe.switched)

/-- While some slot is not armed the clock is not raised. -/
theorem Inv.low_of_disarmed {s : State n} (hs : Inv s) {i : ℕ} (hi : i < n)
    (hna : s.df.isUnsafe = false → i < rocketDfMaxNb → (s.nb i).armed = false) :
    s.clock ≤ rocketSafeRate := by
  by_contra hlt
  have hg := hs.safe.boost (not_le.mp hlt)
  obtain ⟨h4, ha⟩ := hg.armed i hi
  exact absurd (ha.symm.trans (hna hg.safe h4)) (by simp)

theorem rocketCoreInit_inv {env : CoreInitEnv n} (hw : env.wake.SafeExact) (d : Fin n)
    {s : State n} (hs : Inv s) : Inv (rocketCoreInit env d s).2 := by
  rcases rocketCoreInit_cases env d s with ⟨e, h⟩ | ⟨e, h⟩ | h
  · rw [h]
    exact hs
  · rw [h]
    exact env.wake.power_inv hw d hs
  · rw [h]
    exact env.wake.power_inv hw d hs

theorem probeSlot_inv {env : ProbeEnv n} (h1 : env.coreInit.wake.SafeExact)
    (h2 : env.init.wake.SafeExact) {a : ℕ} {d : Fin n} {s : State n} (hs : Inv s)
    (hr : s.rdev = some a) (hd : ∀ j, s.cores j ≠ some d) : Inv (probeSlot env a d s).2 := by
  unfold probeSlot
  split
  · exact hs
  · next i hf =>
    obtain ⟨hi, hfree⟩ := freeSlot_some hf
    obtain ⟨hrem, ho⟩ := bindSlot_removed hs.balanced hr hi hfree (d := d)
    have hbind := (bindSlot_balanced hs.balanced hr hi hfree hd).inv_of_low
      (hs.low_of_disarmed hi (hs.balanced.of_free hi hfree).2.1) hs.safe.switched
    dsimp only
    generalize { s.setDev i (some d) with numCores := s.numCores + 1 } = t at hbind hrem ho ⊢
    have hinit := rocketCoreInit_inv h1 d hbind
    have hfr := rocketCoreInit_frame env.coreInit d t
    split
    · next u heq =>
      rw [heq] at hinit hfr
      have hb := (hrem.of_frame hfr).toBound
      split_ifs with h0
      · exact rocketDevfreqInit_inv h2 hinit hb h0
      · unfold rocketDevfreqCoreAdded
        split_ifs
        · exact rocketDfArmNotifiers_inv env.init.notifier hinit hb.rdev
        · exact hinit
    · next e u heq =>
      rw [heq] at hinit hfr
      have hrem' := hrem.of_frame hfr
      exact unbindSlot_inv hinit.balanced hrem'
        (fun h0 => (congrArg Wiring.core hfr.wiring).trans (ho h0))
        (hinit.low_of_disarmed hi hrem'.disarmed) hinit.safe.switched

theorem attachAndProbe_inv {env : ProbeEnv n} {d : Fin n} {s : State n}
    (ha : (Op.probe env d).Admissible s) (hs : Inv s) : Inv (attachAndProbe env d s).2 := by
  obtain ⟨hd, h1, h2⟩ := ha
  have hatt : Inv { s with powerNb := Function.update s.powerNb d none } := by
    have hb := attach_balanced hs.balanced hd
    exact ⟨⟨hb.sound, fun h => ⟨(hs.safe.boost h).core, (hs.safe.boost h).safe,
      (hs.safe.boost h).armed⟩, hs.safe.switched⟩, hb.refs⟩
  unfold attachAndProbe rocketProbe
  split
  · next a heq => exact probeSlot_inv h1 h2 hatt heq hd
  · exact hatt
  · next a heq _ =>
    apply probeSlot_inv h1 h2 _ rfl (fun _ => by simp)
    exact (alloc_balanced hatt.balanced heq a).inv_of_low
      (hatt.of_no_owner (hatt.balanced.no_owner heq)).1 hs.safe.switched

theorem clkSetRate_safeRate_inv {clk : ClkReply} (hclk : SafeExact clk) {s : State n}
    (hs : Inv s) : Inv (clkSetRate clk rocketSafeRate s).2 := by
  rw [clkSetRate_safe hclk]
  exact hs.of_frame ⟨⟨rfl, rfl, .inl rfl⟩, rfl⟩ ⟨.inr rfl, .inl rfl⟩ rfl

theorem suspendDevice_inv {clk : ClkReply} (hclk : SafeExact clk) (d : Fin n) {s : State n}
    (hs : Inv s) : Inv (suspendDevice clk d s) := by
  have hclock := clkSetRate_safeRate_inv hclk hs
  unfold suspendDevice rocketDevfreqSuspend
  split
  · split_ifs
    · split
      · next heq => simpa only [heq] using hclock
      · next heq => simpa only [heq] using hclock
    · exact hs
  · exact hs

theorem rocketDfNotify_inv {clk : ClkReply} (hclk : SafeExact clk) (stale : Option (Fin n))
    (i : ℕ) (action : GenpdAction) {s : State n} (hs : Inv s) :
    Inv (rocketDfNotify clk stale i action s).2 := by
  refine hs.of_frame (rocketDfNotify_frame clk stale i action s)
    (rocketDfNotify_lowers hclk stale i action s).2 ?_
  rcases rocketDfNotify_cases clk stale i action s with h | h
  · rw [h]
  · rw [h, makeSafe_eq hclk]

/-- Every completed call keeps the invariant. -/
theorem Op.run_inv {op : Op n} {s : State n} (ha : op.Admissible s) (hs : Inv s) :
    Inv (op.run s) := by
  cases op with
  | probe env d => exact attachAndProbe_inv ha hs
  | remove env d => exact rocketRemove_inv ha hs
  | target env opp =>
    obtain ⟨h1, h2⟩ := rocketDevfreqTarget_inv ha hs.safe hs.refs
    exact ⟨h1, h2⟩
  | notify clk stale i action => exact rocketDfNotify_inv ha stale i action hs
  | genpd env d up =>
    exact ⟨genpdSwitch_safe ha d up hs.safe, hs.refs.of_frame (genpdSwitch_frame env d up s)⟩
  | suspend clk d => exact suspendDevice_inv ha d hs
  | rail uv => exact hs.of_frame ⟨⟨rfl, rfl, .inl rfl⟩, rfl⟩ ⟨.inl rfl, .inl rfl⟩ rfl

theorem Loaded.inv {s : State n} (hs : Loaded s) : Inv s := by
  obtain ⟨clock, rail, hclock, rfl⟩ := hs
  have hb : Balanced (.load clock rail : State n) := .load clock rail
  exact ⟨⟨hb.sound, fun h => absurd hclock (not_le.mpr h), by simp [State.load]⟩, hb.refs⟩

theorem Reaches.inv {s : State n} (h : Reaches s) : Inv s :=
  h.invariant (fun _ => Loaded.inv) fun _ _ _ hs ht => ht.2 ▸ Op.run_inv ht.1 hs

/-- Above the safe rate devfreq has an owner, is not `unsafe`, and every slot's core has its
block in its domain's chain; and no domain was ever switched at such a rate. -/
theorem boost_guarded {s : State n} (h : Reaches s) :
    (rocketSafeRate < s.clock →
      s.df.core.isSome ∧ s.df.isUnsafe = false ∧
        ∀ i < n, ∃ a d, s.rdev = some a ∧ s.cores i = some d ∧
          (s.nb i).core = some ⟨a, i⟩ ∧ s.powerNb d = some i ∧ i ∈ s.chain d) ∧
      ∀ rate ∈ s.switches, rate ≤ rocketSafeRate := by
  have hs := h.inv
  refine ⟨fun hlt => ?_, hs.safe.switched⟩
  have hg := hs.safe.boost hlt
  refine ⟨hg.core, hg.safe, fun i hi => ?_⟩
  obtain ⟨hi4, ha⟩ := hg.armed i hi
  obtain ⟨a, d, hr, hp, hd, hn, hm⟩ := hs.safe.sound.armed hg.safe hi4 ha
  exact ⟨a, d, hr, hd, hp, hn, hm⟩

/-- Both of two cores have been probed. -/
def twoCores (rail : ℤ) : State 2 :=
  (Op.probe (.smooth 0) 1).run ((Op.probe (.smooth 0) 0).run (.load rocketSafeRate rail))

theorem second_unbound (rail : ℤ) (i : ℕ) :
    ((Op.probe (.smooth 0) 0).run (.load rocketSafeRate rail : State 2)).cores i ≠ some 1 := by
  have hf : ((Op.probe (.smooth 0) 0).run (.load rocketSafeRate rail : State 2)).cores =
      Function.update (fun _ => none) 0 (some 0) := rfl
  rw [hf]
  rcases Nat.eq_zero_or_pos i with rfl | hi
  · simp
  · simp [Function.update_of_ne (Nat.pos_iff_ne_zero.mp hi)]

theorem twoCores_reaches (rail : ℤ) : Reaches (twoCores rail) := by
  have h0 : Reaches (.load rocketSafeRate rail : State 2) := .start ⟨_, _, le_rfl, rfl⟩
  have h1 := h0.run (Op.probe_smooth_admissible (d := 0) 0 (by simp [State.load]))
  exact h1.run (Op.probe_smooth_admissible 0 (second_unbound rail))

/-- Two cores are boosted with the rail high enough. -/
def boosted : State 2 := (Op.target .smooth (.ok 900000000)).run (twoCores 850000)

theorem boosted_reaches : Reaches boosted :=
  (twoCores_reaches _).run (Op.target_smooth_admissible (by decide))

theorem boosted_guarded :
    rocketSafeRate < boosted.clock ∧ boosted.df.core.isSome ∧ boosted.df.isUnsafe = false ∧
      ∀ i < 2, ∃ a d, boosted.rdev = some a ∧ boosted.cores i = some d ∧
        (boosted.nb i).core = some ⟨a, i⟩ ∧ boosted.powerNb d = some i ∧
        i ∈ boosted.chain d := by
  have hlt : rocketSafeRate < boosted.clock := by decide
  exact ⟨hlt, (boost_guarded boosted_reaches).1 hlt⟩

end RocketNpu.Devfreq
