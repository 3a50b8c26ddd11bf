import RocketNpu.Devfreq.Calls

namespace RocketNpu.Devfreq
open Runs

variable {n : ℕ}

/-- A call for the safe rate that returns 0 leaves no boost reference. -/
def Releases (env : TargetEnv n) (s : State n) : Prop :=
  ∀ got, (rocketDevfreqTarget env (.ok rocketSafeRate) s).1 = .ok got →
    (rocketDevfreqTarget env (.ok rocketSafeRate) s).2.df.refsHeld = false ∧
      ∀ d, (rocketDevfreqTarget env (.ok rocketSafeRate) s).2.held d = 0

/-- The references of a boost that something else has ended: the request and the clock are
back at the safe rate. -/
def Stranded (s : State n) : Prop :=
  s.df.refsHeld = true ∧ s.df.reqRate = rocketSafeRate ∧ s.clock = rocketSafeRate

theorem earlyExit_safeRate_iff {s : State n} :
    EarlyExit rocketSafeRate s ↔ s.df.reqRate = rocketSafeRate ∧ s.clock = rocketSafeRate := by
  unfold EarlyExit
  constructor
  · rintro ⟨h1, -, h3⟩
    exact ⟨h1.symm, h3⟩
  · rintro ⟨h1, h2⟩
    exact ⟨h1.symm, .inl rfl, h2⟩

/-- The early exit looks at the request and the clock, and not at the references. -/
theorem Stranded.not_releases {s : State n} (hr : Refs s) (h : Stranded s) (env : TargetEnv n) :
    ¬ Releases env s := by
  intro hrel
  obtain ⟨hheld, hreq, hclock⟩ := h
  have hcore : s.df.core ≠ none := Option.isSome_iff_ne_none.mp (hr.bound hheld).1
  have hearly : EarlyExit rocketSafeRate s := earlyExit_safeRate_iff.mpr ⟨hreq, hclock⟩
  have hrun : rocketDevfreqTarget env (.ok rocketSafeRate) s = (.ok rocketSafeRate, s) := by
    simp [rocketDevfreqTarget, targetLocked, hcore, hearly]
  have hfalse := (hrel rocketSafeRate (by rw [hrun])).1
  rw [hrun] at hfalse
  exact absurd (hheld.symm.trans hfalse) (by simp)

/-- A change to the safe rate that succeeds leaves the boost flag down. -/
theorem changeRate_refsHeld {clk : ClkReply} {s : State n} {got : ℕ}
    (h : (changeRate clk rocketSafeRate s).1 = .ok got) :
    (changeRate clk rocketSafeRate s).2.df.refsHeld = false := by
  unfold changeRate clkSetRate at h ⊢
  cases hclk : clk rocketSafeRate with
  | error e => simp [hclk] at h
  | ok r => simp [settleRefs_eq, State.setReqRate]

theorem targetLocked_refsHeld {env : TargetEnv n} {s : State n} (hs : ¬ Stranded s) {got : ℕ}
    (h : (targetLocked env rocketSafeRate s).1 = .ok got) :
    (targetLocked env rocketSafeRate s).2.df.refsHeld = false := by
  by_cases hearly : EarlyExit rocketSafeRate s
  · have hrefs : s.df.refsHeld = false := by
      by_contra hr
      exact hs ⟨by simpa using hr, earlyExit_safeRate_iff.mp hearly⟩
    unfold targetLocked at h ⊢
    split_ifs at h ⊢
    exact hrefs
  · unfold targetLocked at h ⊢
    split_ifs at h ⊢
    split at h
    · cases h
    · exact changeRate_refsHeld h

/-- In every reachable state a successful call for the safe rate gives the references back
exactly when they are not stranded. -/
theorem releases_iff {x : Calls n} (h : CallReaches x) (env : TargetEnv n) :
    Releases env x.s ↔ ¬ Stranded x.s := by
  have hb := h.inv.balanced
  constructor
  · exact fun hrel hs => hs.not_releases hb.refs env hrel
  · intro hs got hgot
    have hrefs := rocketDevfreqTarget_refs env (.ok rocketSafeRate) hb.sound hb.refs
    have hflag : (rocketDevfreqTarget env (.ok rocketSafeRate) x.s).2.df.refsHeld = false :=
      targetLocked_refsHeld hs hgot
    refine ⟨hflag, fun d => ?_⟩
    rw [hrefs.held d, hflag]
    rfl

theorem releases_boosted : Releases .smooth boostedCalls.s := by
  have hnot : ¬ Stranded boostedCalls.s := by
    rintro ⟨-, -, hclock⟩
    exact absurd hclock (by decide)
  exact (releases_iff boostedCalls_reaches .smooth).mpr hnot

/-- The core's domain is about to be switched, and the notifier ends the boost. -/
def droppedCalls : Calls 1 where
  s := (rocketDfNotify .ok none 0 .preOff boostedCalls.s).2
  phase := .idle

theorem not_releases :
    CallReaches droppedCalls ∧ ¬ Releases .smooth droppedCalls.s ∧
      (rocketDevfreqTarget .smooth (.ok rocketSafeRate) droppedCalls.s).2.held 0 = 1 := by
  have hreach : CallReaches droppedCalls :=
    boostedCalls_reaches.step (e := .notify .ok none 0 .preOff) ⟨trivial, rfl⟩
  have hs : Stranded droppedCalls.s := ⟨by decide, by decide, by decide⟩
  exact ⟨hreach, hs.not_releases hreach.inv.balanced.refs .smooth, by decide⟩

end RocketNpu.Devfreq
