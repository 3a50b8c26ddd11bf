import RocketNpu.Devfreq.Guard

namespace RocketNpu.Devfreq

variable {n : ℕ}

theorem safeRate_le_of_mem_oppTable {freq : ℕ} (h : freq ∈ oppTable) :
    rocketSafeRate ≤ freq := by
  revert freq
  decide

@[simp] theorem settleRefs_wiring (s : State n) : (settleRefs s).wiring = s.wiring := by
  rw [settleRefs_eq]
  rfl

@[simp] theorem changeRate_wiring (clk : ClkReply) (freq : ℕ) (s : State n) :
    (changeRate clk freq s).2.wiring = s.wiring := by
  have h := clkSetRate_wiring clk freq (s.setReqRate freq)
  unfold changeRate
  split
  · next heq =>
    rw [heq] at h
    rw [settleRefs_wiring]
    exact h
  · next heq =>
    rw [heq] at h
    rw [settleRefs_wiring]
    exact h

/-- The calls of `rocket_devfreq_target` that get past every refusal. -/
structure Passes (freq : ℕ) (s : State n) : Prop where
  core : s.df.core.isSome
  late : ¬ EarlyExit freq s
  guard : rocketSafeRate < freq → s.df.isUnsafe = false ∧ rocketDfAllGuarded s = true
  volt : rocketHighRate < freq → rocketVoltForHigh ≤ railReading s

/-- What a target call can do: refuse or exit early and change nothing, fail to wake some
core, or go through with the rate change. -/
theorem targetLocked_cases (env : TargetEnv n) (freq : ℕ) (s : State n) :
    (targetLocked env freq s).2 = s ∨
      Passes freq s ∧
        ((∃ e t, rocketDevfreqHoldAll env.wake s = (.error e, t) ∧
            targetLocked env freq s = (.error e, t)) ∨
          ∃ t, rocketDevfreqHoldAll env.wake s = (.ok (), t) ∧
            targetLocked env freq s = changeRate env.clk freq t) := by
  unfold targetLocked
  split_ifs with h1 h2 h3 h4
  · exact .inl rfl
  · exact .inl rfl
  · exact .inl rfl
  · exact .inl rfl
  · have hp : Passes freq s := by
      refine ⟨Option.isSome_iff_ne_none.mpr h1, h2, fun hlt => ?_, fun hlt => ?_⟩
      · simpa [not_or] using not_and.mp h3 hlt
      · exact not_lt.mp fun hv => h4 ⟨hlt, hv⟩
    refine .inr ⟨hp, ?_⟩
    split
    · next e t heq => exact .inl ⟨e, t, heq, rfl⟩
    · next t heq => exact .inr ⟨t, heq, rfl⟩

theorem targetLocked_wiring (env : TargetEnv n) (freq : ℕ) (s : State n) :
    (targetLocked env freq s).2.wiring = s.wiring := by
  rcases targetLocked_cases env freq s with h | ⟨_, ⟨e, t, hh, h⟩ | ⟨t, hh, h⟩⟩
  · rw [h]
  · rw [h]
    exact (holdAll_error hh).wiring
  · rw [h, changeRate_wiring]
    exact (holdAll_ok hh).1.wiring

theorem rocketDevfreqTarget_wiring (env : TargetEnv n) (opp : Except Errno ℕ) (s : State n) :
    (rocketDevfreqTarget env opp s).2.wiring = s.wiring := by
  unfold rocketDevfreqTarget
  split
  · rfl
  · exact targetLocked_wiring env _ s

/-- The rate change, made with a fresh set of references in hand, keeps one set or none. -/
theorem changeRate_refs (clk : ClkReply) {freq : ℕ} {s : State n}
    (hg : rocketSafeRate < freq → s.df.core.isSome ∧ ∀ i < n, (s.cores i).isSome)
    (hreq : rocketSafeRate < s.df.reqRate → s.df.refsHeld = true)
    (hb : s.df.refsHeld = true → s.df.core.isSome ∧ ∀ i < n, (s.cores i).isSome)
    (hh : ∀ d, s.held d = (if s.df.refsHeld then (boundBelow s n d : ℤ) else 0) +
      boundBelow s n d) :
    Refs (changeRate clk freq s).2 := by
  unfold changeRate clkSetRate
  cases clk freq with
  | error e =>
    -- the old request is back
    exact settleRefs_refs (fun hlt => hb (hreq hlt)) hh
  | ok got => exact settleRefs_refs hg hh

/-- On a clock that takes the safe rate exactly it also keeps the boost guard. -/
theorem changeRate_safe {clk : ClkReply} (hclk : SafeExact clk) {freq : ℕ}
    (hfreq : rocketSafeRate ≤ freq) {s : State n} (hs : Safe s)
    (hg : rocketSafeRate < freq → s.wiring.Guarded) : Safe (changeRate clk freq s).2 := by
  unfold changeRate clkSetRate
  cases hr : clk freq with
  | error e =>
    -- the clock is untouched
    dsimp only
    exact hs.of_lowers (by rw [settleRefs_wiring]; rfl)
      (by rw [settleRefs_eq]; exact ⟨.inl rfl, .inl rfl⟩) (by rw [settleRefs_eq]; rfl)
  | ok got =>
    dsimp only
    rw [settleRefs_eq]
    refine ⟨hs.sound, fun hlt => ?_, hs.switched⟩
    rcases hfreq.lt_or_eq with hf | hf
    · exact hg hf
    · -- the safe rate is exact, so the clock is not above it
      subst hf
      have hgot : got = rocketSafeRate := by
        unfold SafeExact at hclk
        rw [hclk] at hr
        exact (Except.ok.inj hr).symm
      exact absurd hlt (by rw [hgot]; exact lt_irrefl _)

/-- A call that goes through for a rate above the safe one finds every slot guarded. -/
theorem Passes.guarded {freq : ℕ} {s : State n} (hp : Passes freq s) (hs : s.wiring.Sound)
    (hlt : rocketSafeRate < freq) : s.wiring.Guarded := by
  obtain ⟨hu, hall⟩ := hp.guard hlt
  exact guarded_of_allGuarded hs hp.core hu hall

theorem targetLocked_refs (env : TargetEnv n) (freq : ℕ) {s : State n} (hs : s.wiring.Sound)
    (hr : Refs s) : Refs (targetLocked env freq s).2 := by
  rcases targetLocked_cases env freq s with h | ⟨hp, ⟨e, t, hh, h⟩ | ⟨t, hh, h⟩⟩
  · rw [h]
    exact hr
  · rw [h]
    exact hr.of_frame (holdAll_error hh)
  · rw [h]
    obtain ⟨hl, hheld⟩ := holdAll_ok hh
    have hcore : t.df.core = s.df.core := congrArg Wiring.core hl.wiring
    have hcores : t.cores = s.cores := congrArg Wiring.cores hl.wiring
    apply changeRate_refs
    · intro hlt
      rw [hcore, hcores]
      exact (hp.guarded hs hlt).bound hs
    · intro hlt
      rcases hl.reqRate with hq | hq
      · exact hl.refsHeld ▸ hr.req (hq ▸ hlt)
      · exact absurd hlt (by rw [hq]; exact lt_irrefl _)
    · intro hb
      rw [hcore, hcores]
      exact hr.bound (hl.refsHeld ▸ hb)
    · intro d
      simp only [hheld, hl.refsHeld, boundBelow_congr hl.wiring, hr.held d]

theorem targetLocked_safe {env : TargetEnv n} (hwake : ∀ i, (env.wake i).SafeExact)
    (hclk : SafeExact env.clk) {freq : ℕ} (hfreq : rocketSafeRate ≤ freq) {s : State n}
    (hs : Safe s) : Safe (targetLocked env freq s).2 := by
  have hsafe := holdUpTo_safe hwake n hs
  rcases targetLocked_cases env freq s with h | ⟨hp, ⟨e, t, hh, h⟩ | ⟨t, hh, h⟩⟩
  · rw [h]
    exact hs
  · rw [h]
    rwa [show holdUpTo env.wake n s = (.error e, t) from hh] at hsafe
  · rw [h]
    rw [show holdUpTo env.wake n s = (.ok (), t) from hh] at hsafe
    exact changeRate_safe hclk hfreq hsafe fun hlt =>
      (holdAll_ok hh).1.wiring ▸ hp.guarded hs.sound hlt

theorem rocketDevfreqTarget_refs (env : TargetEnv n) (opp : Except Errno ℕ) {s : State n}
    (hs : s.wiring.Sound) (hr : Refs s) : Refs (rocketDevfreqTarget env opp s).2 := by
  cases opp with
  | error e => exact hr
  | ok freq => exact targetLocked_refs env freq hs hr

theorem rocketDevfreqTarget_inv {env : TargetEnv n} {opp : Except Errno ℕ} {s : State n}
    (ha : (Op.target env opp).Admissible s) (hs : Safe s) (hr : Refs s) :
    Safe (rocketDevfreqTarget env opp s).2 ∧ Refs (rocketDevfreqTarget env opp s).2 := by
  obtain ⟨hwake, hclk, hopp⟩ := ha
  refine ⟨?_, rocketDevfreqTarget_refs env opp hs.sound hr⟩
  cases opp with
  | error e => exact hs
  | ok freq =>
    exact targetLocked_safe hwake hclk (safeRate_le_of_mem_oppTable (hopp freq rfl)) hs

end RocketNpu.Devfreq
