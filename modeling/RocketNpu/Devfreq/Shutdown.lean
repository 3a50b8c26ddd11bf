import RocketNpu.Devfreq.Moves

namespace RocketNpu.Devfreq
open Runs

variable {n : ℕ}

/-- What a shutdown meets, per device; `suspended` is `pm_runtime_status_suspended`. -/
structure ShutdownEnv (n : ℕ) where
  clk : Fin n → ClkReply
  suspended : Fin n → Bool

/-- The answer of `clk_set_rate` is not looked at. -/
def rocketDevfreqShutdown (clk : ClkReply) (suspended : Bool) (core : CorePtr) (s : State n) :
    State n :=
  if rocketDevfreqOwns core s ∧ s.df.core = some core then
    if suspended then s else (clkSetRate clk rocketSafeRate s).2
  else s

def rocketPlatformShutdown (env : ShutdownEnv n) (d : Fin n) (s : State n) : State n :=
  match s.rdev, findCoreForDev d s with
  | some rdev, some i => rocketDevfreqShutdown (env.clk d) (env.suspended d) ⟨rdev, i⟩ s
  | _, _ => s

/-- `device_shutdown`: the devices one after the other. -/
def deviceShutdown (env : ShutdownEnv n) : List (Fin n) → State n → State n
  | [], s => s
  | d :: ds, s => deviceShutdown env ds (rocketPlatformShutdown env d s)

/-- A clock above the safe rate was asked for. -/
def Raised (s : State n) : Prop := rocketSafeRate < s.clock → rocketSafeRate < s.df.reqRate

theorem Raised.of_low {s : State n} (h : s.clock ≤ rocketSafeRate) : Raised s :=
  fun hlt => absurd h (not_le.mpr hlt)

theorem Raised.calm {s t : State n} (hs : Raised s) (h : Calm s t) : Raised t := by
  rcases h.rates with ⟨hc, hr⟩ | ⟨hlow, -⟩
  · intro hlt
    rw [hr]
    exact hs (hc ▸ hlt)
  · exact .of_low hlow

theorem Op.run_raised {op : Op n} {s : State n} (ha : op.Admissible s) (hs : Raised s) :
    Raised (op.run s) := by
  have hmoves := Op.run_moves ha
  generalize op.run s = t at hmoves
  cases hmoves with
  | calm h => exact hs.calm h
  | @sets env freq _ h =>
    obtain ⟨-, hclk, hopp⟩ := ha
    intro hlt
    rw [h.reqRate]
    refine lt_of_le_of_ne (safeRate_le_of_mem_oppTable (hopp freq rfl)) ?_
    -- the safe rate is set exactly
    rintro rfl
    exact absurd (Except.ok.inj (hclk.symm.trans h.clock)) hlt.ne
  | rail uv => exact hs

theorem Reaches.raised {s : State n} (h : Reaches s) : Raised s := by
  refine h.invariant (I := Raised) ?_ ?_
  · rintro s ⟨clock, rail, hle, rfl⟩
    exact .of_low hle
  · intro s op t hs ht
    exact ht.2 ▸ Op.run_raised ht.1 hs

theorem findCoreForDev_of_slot {s : State n} (hs : s.wiring.Sound) {i : ℕ} {d : Fin n}
    (hi : s.cores i = some d) : findCoreForDev d s = some i := by
  have hex : ((List.range n).find? fun j => s.cores j == some d).isSome := by
    rw [List.find?_isSome]
    exact ⟨i, List.mem_range.mpr (hs.slot_lt hi), by simp [hi]⟩
  obtain ⟨j, hj⟩ := Option.isSome_iff_exists.mp hex
  have hij : j = i := hs.slot_inj (findCoreForDev_some hj) hi
  exact hij ▸ hj

/-- While the clock is raised the core that owns devfreq is bound, and referenced. -/
theorem Reaches.owner_awake {s : State n} (h : Reaches s) (hlt : rocketSafeRate < s.clock) :
    ∃ p d, s.df.core = some p ∧ s.rdev = some p.rdev ∧ s.cores p.idx = some d ∧ 0 < s.held d := by
  have hinv := h.inv
  have hguarded := hinv.safe.boost hlt
  obtain ⟨p, hp⟩ := Option.isSome_iff_exists.mp hguarded.core
  obtain ⟨hr, h0, hbound⟩ := hinv.safe.sound.owner hp
  obtain ⟨d, hd⟩ := Option.isSome_iff_exists.mp hbound
  have hd' : s.cores p.idx = some d := h0 ▸ hd
  refine ⟨p, d, hp, hr, hd', ?_⟩
  have hin : p.idx < n := hinv.safe.sound.slot_lt hd'
  rw [hinv.refs.held d, hinv.refs.req (h.raised hlt), boundBelow_eq hinv.safe.sound hd', if_pos hin]
  decide

variable {env : ShutdownEnv n}

theorem rocketPlatformShutdown_cases (hclk : ∀ d, SafeExact (env.clk d)) (d : Fin n)
    (s : State n) : rocketPlatformShutdown env d s = s ∨
      rocketPlatformShutdown env d s = { s with clock := rocketSafeRate } := by
  unfold rocketPlatformShutdown rocketDevfreqShutdown
  split
  · rw [clkSetRate_safe (hclk d)]
    split_ifs
    · exact .inl rfl
    · exact .inr rfl
    · exact .inl rfl
  · exact .inl rfl

theorem rocketPlatformShutdown_owner (hclk : ∀ d, SafeExact (env.clk d)) {s : State n}
    (hs : s.wiring.Sound) {p : CorePtr} {d : Fin n} (hp : s.df.core = some p)
    (hr : s.rdev = some p.rdev) (hd : s.cores p.idx = some d) (hawake : env.suspended d = false) :
    rocketPlatformShutdown env d s = { s with clock := rocketSafeRate } := by
  have howns : rocketDevfreqOwns p s = true := by simp [rocketDevfreqOwns, hp, hd]
  simp only [rocketPlatformShutdown, hr, findCoreForDev_of_slot hs hd, rocketDevfreqShutdown]
  rw [if_pos ⟨howns, hp⟩, clkSetRate_safe (hclk d)]
  simp [hawake, hr]

/-- Shutdowns change at most the clock, and only to the safe rate. -/
theorem deviceShutdown_cases (hclk : ∀ d, SafeExact (env.clk d)) (ds : List (Fin n))
    (s : State n) : deviceShutdown env ds s = s ∨
      deviceShutdown env ds s = { s with clock := rocketSafeRate } := by
  induction ds generalizing s with
  | nil => exact .inl rfl
  | cons d ds ih =>
    unfold deviceShutdown
    rcases rocketPlatformShutdown_cases hclk d s with h | h
    · rw [h]
      exact ih s
    · rw [h]
      rcases ih { s with clock := rocketSafeRate } with h | h
      · exact .inr h
      · exact .inr h

theorem deviceShutdown_owner (hclk : ∀ d, SafeExact (env.clk d)) {s : State n}
    (hs : s.wiring.Sound) {p : CorePtr} {d : Fin n} (hp : s.df.core = some p)
    (hr : s.rdev = some p.rdev) (hd : s.cores p.idx = some d) (hawake : env.suspended d = false)
    {ds : List (Fin n)} (hmem : d ∈ ds) :
    deviceShutdown env ds s = { s with clock := rocketSafeRate } := by
  induction ds generalizing s with
  | nil => simp at hmem
  | cons e ds ih =>
    unfold deviceShutdown
    rcases List.mem_cons.mp hmem with rfl | hmem
    · rw [rocketPlatformShutdown_owner hclk hs hp hr hd hawake]
      rcases deviceShutdown_cases hclk ds { s with clock := rocketSafeRate } with h | h
      · exact h
      · exact h
    · rcases rocketPlatformShutdown_cases hclk e s with h | h
      · rw [h]
        exact ih hs hp hr hd hmem
      · rw [h]
        exact ih (s := { s with clock := rocketSafeRate }) hs hp hr hd hmem

/-- No target call gets through for a rate above the safe one. -/
def Unraised (s : State n) (op : Op n) : Prop :=
  ∀ env freq, op = .target env (.ok freq) → rocketSafeRate < freq → ¬ Passes freq s

theorem Step.low {s t : State n} {op : Op n} (hlow : s.clock ≤ rocketSafeRate)
    (h : restrict Step Unraised s op t) : t.clock ≤ rocketSafeRate := by
  obtain ⟨⟨hadm, rfl⟩, hun⟩ := h
  have hmoves := Op.run_moves hadm
  generalize op.run s = t at hmoves
  cases hmoves with
  | calm h =>
    rcases h.rates with ⟨hc, -⟩ | ⟨hle, -⟩
    · rwa [hc]
    · exact hle
  | @sets env freq _ h =>
    have hle : freq ≤ rocketSafeRate := not_lt.mp fun hlt => hun env freq rfl hlt h.passes
    have hge := safeRate_le_of_mem_oppTable (hadm.2.2 freq rfl)
    obtain rfl : freq = rocketSafeRate := hle.antisymm hge
    exact (Except.ok.inj (h.clock.symm.trans hadm.2.1)).le
  | rail uv => exact hlow

/-- Once the shutdown of every bound device was called the clock is at a rate the next kernel can
start from, and stays there until a target call raises it again. Devfreq is not told: what it
holds and what it says is set stay as they were. -/
theorem shutdown_low {s : State n} (h : Reaches s) (hclk : ∀ d, SafeExact (env.clk d))
    (hpm : ∀ d, env.suspended d = true → s.held d ≤ 0) {ds : List (Fin n)}
    (hds : ∀ i d, s.cores i = some d → d ∈ ds) :
    (∃ c ≤ rocketSafeRate, deviceShutdown env ds s = { s with clock := c }) ∧
      ∀ t, Reachable (· = deviceShutdown env ds s) (restrict Step Unraised) t →
        t.clock ≤ rocketSafeRate := by
  have hend : ∃ c ≤ rocketSafeRate, deviceShutdown env ds s = { s with clock := c } := by
    by_cases hlt : rocketSafeRate < s.clock
    · obtain ⟨p, d, hp, hr, hd, hheld⟩ := h.owner_awake hlt
      have hawake : env.suspended d = false := by
        by_contra hsusp
        have := hpm d (by simpa using hsusp)
        omega
      exact ⟨_, le_rfl,
        deviceShutdown_owner hclk h.inv.safe.sound hp hr hd hawake (hds p.idx d hd)⟩
    · rcases deviceShutdown_cases hclk ds s with hs | hs
      · exact ⟨s.clock, not_lt.mp hlt, hs⟩
      · exact ⟨_, le_rfl, hs⟩
  refine ⟨hend, fun t ht => ?_⟩
  refine ht.invariant (I := fun t => t.clock ≤ rocketSafeRate) ?_
    fun _ _ _ hs hst => Step.low hs hst
  rintro _ rfl
  obtain ⟨c, hc, heq⟩ := hend
  rw [heq]
  exact hc

def ShutdownEnv.smooth : ShutdownEnv 2 := ⟨fun _ => .ok, fun _ => false⟩

/-- The two cores of `boosted` are shut down awake, and a target call for the safe rate comes
after. -/
theorem shutdown_low_boosted :
    rocketSafeRate < boosted.clock ∧
      ∃ s, deviceShutdown .smooth [1, 0] boosted = s ∧ s.clock ≤ rocketSafeRate ∧
        ((Op.target .smooth (.ok rocketSafeRate)).run s).clock ≤ rocketSafeRate := by
  have hclk : ∀ d : Fin 2, SafeExact (ShutdownEnv.smooth.clk d) := fun _ => rfl
  have hpm : ∀ d : Fin 2, ShutdownEnv.smooth.suspended d = true → boosted.held d ≤ 0 := by
    rintro d ⟨⟩
  have hall : ∀ d : Fin 2, d ∈ [1, 0] := by decide
  obtain ⟨⟨c, hc, heq⟩, hruns⟩ := shutdown_low boosted_reaches hclk hpm fun _ d _ => hall d
  refine ⟨by decide, _, rfl, heq ▸ hc, hruns _ (.step (.start rfl) ⟨⟨?_, rfl⟩, ?_⟩)⟩
  · exact Op.target_smooth_admissible (by decide)
  · rintro env freq ⟨⟩ hlt
    exact absurd hlt (lt_irrefl _)

end RocketNpu.Devfreq
