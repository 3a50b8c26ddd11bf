import RocketNpu.Devfreq.Moves
import RocketNpu.Devfreq.VoltageGuard

namespace RocketNpu.Devfreq
open Runs

variable {n : ℕ}

/-- The clock never settles above the rate it was asked for. -/
def Settles (_ : State n) (op : Op n) : Prop :=
  ∀ env freq got, op = .target env (.ok freq) → env.clk freq = .ok got → got ≤ freq

/-- Steps that leave the clock where it is. -/
def Steady (s : State n) (op : Op n) : Prop := (op.run s).clock = s.clock

/-- The call that last raised the clock: it was made on a rail that read high enough, with every
domain guarded, and nothing has touched the clock since. -/
structure Cleared (s₀ : State n) (env : TargetEnv n) (freq : ℕ) (s : State n) : Prop where
  before : Reachable Loaded (restrict Step Settles) s₀
  admissible : (Op.target env (.ok freq)).Admissible s₀
  high : rocketHighRate < freq
  rail : s₀.df.reg = true ∧ rocketVoltForHigh ≤ s₀.rail
  guarded : s₀.wiring.Guarded
  settled : env.clk freq = .ok s.clock
  since : Reachable (· = (Op.target env (.ok freq)).run s₀) (restrict Step Steady) s

theorem Cleared.steady {s₀ s t : State n} {env : TargetEnv n} {freq : ℕ} {op : Op n}
    (h : Cleared s₀ env freq s) (hs : Step s op t) (hc : t.clock = s.clock) :
    Cleared s₀ env freq t := by
  obtain ⟨hadm, rfl⟩ := hs
  exact { h with
    settled := hc ▸ h.settled
    since := h.since.step ⟨⟨hadm, rfl⟩, hc⟩ }

/-- Whenever the clock is above `rocketHighRate`, the call that put it there read at least
`rocketVoltForHigh` off the rail. -/
theorem cleared_of_high {s : State n} (h : Reachable Loaded (restrict Step Settles) s)
    (hc : rocketHighRate < s.clock) : ∃ s₀ env freq, Cleared s₀ env freq s := by
  induction h with
  | start h0 =>
    obtain ⟨clock, rail, hle, rfl⟩ := h0
    have hlow : rocketSafeRate < rocketHighRate := by decide
    exact absurd (hc.trans_le hle) (by omega)
  | @step s t op hreach hs ih =>
    obtain ⟨⟨hadm, rfl⟩, hsettles⟩ := hs
    cases Op.run_moves hadm with
    | calm hcalm =>
      rcases hcalm.clock with hsame | hsafe
      · obtain ⟨s₀, env, freq, hcl⟩ := ih (hsame ▸ hc)
        exact ⟨s₀, env, freq, hcl.steady ⟨hadm, rfl⟩ hsame⟩
      · rw [hsafe] at hc
        exact absurd hc (by decide)
    | @sets env freq _ hset =>
      have hfreq : rocketHighRate < freq := hc.trans_le (hsettles env freq _ rfl hset.clock)
      have hsafe : rocketSafeRate < freq := lt_trans (by decide) hfreq
      have hinv := Reaches.inv hreach.of_restrict
      exact ⟨s, env, freq, hreach, hadm, hfreq, railReading_high.mp (hset.passes.volt hfreq),
        hset.passes.guarded hinv.safe.sound hsafe, hset.clock, .start rfl⟩
    | rail uv =>
      obtain ⟨s₀, env, freq, hcl⟩ := ih hc
      exact ⟨s₀, env, freq, hcl.steady ⟨hadm, rfl⟩ rfl⟩

/-- The boosted cores of `boosted`, on a clock that takes every rate exactly. -/
theorem cleared_boosted : ∃ s₀ env freq, Cleared s₀ env freq boosted := by
  have h0 : Reachable Loaded (restrict Step Settles) (.load rocketSafeRate 850000 : State 2) :=
    .start ⟨_, _, le_rfl, rfl⟩
  have hd : ∀ i, (State.load rocketSafeRate 850000 : State 2).cores i ≠ some 0 := by
    simp [State.load]
  have h1 := h0.step ⟨⟨Op.probe_smooth_admissible 0 hd, rfl⟩, by rintro env freq got ⟨⟩⟩
  have h2 := h1.step ⟨⟨Op.probe_smooth_admissible 0 (second_unbound 850000), rfl⟩, by
    rintro env freq got ⟨⟩⟩
  have hfreq : 900000000 ∈ oppTable := by decide
  have h3 := h2.step ⟨⟨Op.target_smooth_admissible hfreq, rfl⟩, by
    rintro env freq got ⟨⟩ hgot
    exact (Except.ok.inj hgot).ge⟩
  exact cleared_of_high h3 (by decide)

/-- Nobody raises the rail to `rocketVoltForHigh`. -/
def RailLow (s : State n) (op : Op n) : Prop :=
  Settles s op ∧ ∀ uv, op = .rail uv → uv < rocketVoltForHigh

/-- On a rail that stays too low the clock never gets above `rocketHighRate`. -/
theorem capped {rail : ℤ} (hrail : rail < rocketVoltForHigh) {s : State n}
    (h : Reachable (fun s => ∃ clock ≤ rocketSafeRate, s = .load clock rail)
      (restrict Step RailLow) s) : s.clock ≤ rocketHighRate := by
  have hsafe : rocketSafeRate ≤ rocketHighRate := by decide
  have hboth : s.rail < rocketVoltForHigh ∧ s.clock ≤ rocketHighRate := by
    refine h.invariant
      (I := fun s => s.rail < rocketVoltForHigh ∧ s.clock ≤ rocketHighRate) ?_ ?_
    · rintro s ⟨clock, hle, rfl⟩
      exact ⟨hrail, hle.trans hsafe⟩
    · intro s op t hi hs
      obtain ⟨hlow, hclock⟩ := hi
      obtain ⟨⟨hadm, rfl⟩, hsettles, huv⟩ := hs
      cases Op.run_moves hadm with
      | calm hcalm =>
        refine ⟨hcalm.rail ▸ hlow, ?_⟩
        rcases hcalm.clock with hc | hc
        · rwa [hc]
        · rwa [hc]
      | @sets env freq _ hset =>
        refine ⟨hset.rail ▸ hlow, ?_⟩
        -- a call for more would have been refused
        refine (hsettles env freq _ rfl hset.clock).trans (not_lt.mp fun hf => ?_)
        have := (railReading_high.mp (hset.passes.volt hf)).2
        omega
      | rail uv => exact ⟨huv uv rfl, hclock⟩
  exact hboth.2

end RocketNpu.Devfreq
