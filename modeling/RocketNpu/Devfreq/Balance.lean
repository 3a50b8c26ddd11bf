import RocketNpu.Devfreq.Rebind

namespace RocketNpu.Devfreq

variable {n : ℕ}

/-- Giving the boost up: clock and request at the safe rate, the references put. -/
def State.dropBoost (s : State n) : State n :=
  { s with
    clock := rocketSafeRate
    df.reqRate := rocketSafeRate
    df.refsHeld := false
    held := fun d => s.held d - if s.df.refsHeld then boundBelow s n d else 0 }

theorem Refs.dropBoost {s : State n} (hs : Refs s) : Refs s.dropBoost := by
  refine ⟨fun h => absurd h (lt_irrefl _), fun h => by simp [State.dropBoost] at h, fun d => ?_⟩
  simp only [State.dropBoost, hs.held d, Bool.false_eq_true, if_false]
  split_ifs <;> omega

/-- Whatever the clock answers, the section of a removal gives the references up; a clock
that cannot be made safe is recorded in `isUnsafe`. -/
theorem coreRemovedLocked_cases (clk : ClkReply) (s : State n) :
    (s.df.core = none ∧ coreRemovedLocked clk s = s) ∨
      ∃ c u, (u = s.df.isUnsafe ∨ u = true) ∧
        coreRemovedLocked clk s = { s.dropBoost with clock := c, df.isUnsafe := u } := by
  by_cases hc : s.df.core.isNone
  · exact .inl ⟨by simpa using hc, by simp [coreRemovedLocked, hc]⟩
  · right
    rcases lowerClock_cases clk (s.setReqRate rocketSafeRate) with ⟨e, hl⟩ | ⟨got, hl⟩
    · refine ⟨s.clock, true, .inr rfl, ?_⟩
      simp only [coreRemovedLocked, hc, hl, State.dropBoost]
      cases hr : s.df.refsHeld with
      | false => simp [State.setReqRate, State.setUnsafe, hr]
      | true => simp [State.setReqRate, State.setUnsafe, State.setRefsHeld,
          rocketDevfreqReleaseAll_eq, boundBelow, hr]
    · refine ⟨got, s.df.isUnsafe, .inl rfl, ?_⟩
      simp only [coreRemovedLocked, hc, hl, State.dropBoost]
      cases hr : s.df.refsHeld with
      | false => simp [State.setReqRate, hr]
      | true => simp [State.setReqRate, State.setRefsHeld, rocketDevfreqReleaseAll_eq,
          boundBelow, hr]

/-- The core sits in its slot of the present device. -/
structure Bound (core : CorePtr) (d : Fin n) (s : State n) : Prop where
  rdev : s.rdev = some core.rdev
  slot : s.cores core.idx = some d

theorem Bound.congr {core : CorePtr} {d : Fin n} {s t : State n} (h : Bound core d s)
    (hr : t.rdev = s.rdev) (hc : t.cores = s.cores) : Bound core d t :=
  ⟨hr.trans h.rdev, (congrFun hc _).trans h.slot⟩

theorem Bound.of_frame {core : CorePtr} {d : Fin n} {s t : State n} (h : Bound core d s)
    (hf : Frame s t) : Bound core d t :=
  h.congr (congrArg Wiring.rdev hf.wiring) (congrArg Wiring.cores hf.wiring)

/-- The core has given its part in the boost up, and its slot no longer counts as armed. -/
structure Removed (core : CorePtr) (d : Fin n) (s : State n) : Prop extends Bound core d s where
  refsHeld : s.df.refsHeld = false
  disarmed : s.df.isUnsafe = false → core.idx < rocketDfMaxNb →
    (s.nb core.idx).armed = false

theorem Removed.of_frame {core : CorePtr} {d : Fin n} {s t : State n} (h : Removed core d s)
    (hf : Frame s t) : Removed core d t := by
  refine ⟨h.toBound.of_frame hf, hf.refsHeld.trans h.refsHeld, fun hu hi => ?_⟩
  have hnb : t.nb = s.nb := congrArg Wiring.nb hf.wiring
  rw [hnb]
  exact h.disarmed ((congrArg Wiring.isUnsafe hf.wiring).symm.trans hu) hi

theorem coreRemovedLocked_balanced (clk : ClkReply) {s : State n} (hs : Balanced s) :
    Balanced (coreRemovedLocked clk s) ∧ (coreRemovedLocked clk s).rdev = s.rdev ∧
      (coreRemovedLocked clk s).cores = s.cores ∧
      (coreRemovedLocked clk s).df.refsHeld = false := by
  rcases coreRemovedLocked_cases clk s with ⟨hc, h⟩ | ⟨c, u, hu, h⟩
  · rw [h]
    exact ⟨hs, rfl, rfl, hs.of_no_owner hc⟩
  · rw [h]
    refine ⟨⟨?_, hs.refs.dropBoost.congr rfl rfl rfl rfl rfl⟩, rfl, rfl, rfl⟩
    rcases hu with rfl | rfl
    · exact hs.sound
    · exact hs.sound.of_unsafe rfl rfl rfl rfl rfl

/-- The part of the state that unregistering a notifier leaves alone. -/
structure SameBinding (s t : State n) : Prop where
  rdev : t.rdev = s.rdev
  cores : t.cores = s.cores
  core : t.df.core = s.df.core
  refsHeld : t.df.refsHeld = s.df.refsHeld
  clock : t.clock = s.clock
  switches : t.switches = s.switches

theorem coreRemovedUnregister_cases (reply : Option Errno) (core : CorePtr) (d : Fin n)
    (s : State n) :
    (findArmed core s = none ∧ coreRemovedUnregister reply core d s = s) ∨
      ∃ j, findArmed core s = some j ∧
        (coreRemovedUnregister reply core d s = s.setUnsafe ∨
          ∃ k, coreRemovedUnregister reply core d s = { s with
            nb := Function.update s.nb j ⟨none, false⟩
            chain := Function.update s.chain d ((s.chain d).erase k)
            powerNb := Function.update s.powerNb d none }) := by
  unfold coreRemovedUnregister
  cases hf : findArmed core s with
  | none => exact .inl ⟨rfl, rfl⟩
  | some j =>
    refine .inr ⟨j, rfl, ?_⟩
    dsimp only
    rcases devPmGenpdRemoveNotifier_cases reply d s with ⟨e, h⟩ | ⟨k, h⟩
    · rw [h]
      exact .inl rfl
    · rw [h]
      exact .inr ⟨k, rfl⟩

theorem findArmed_some {core : CorePtr} {s : State n} {j : ℕ} (h : findArmed core s = some j) :
    j < rocketDfMaxNb ∧ (s.nb j).armed = true ∧ (s.nb j).core = some core := by
  have hp := List.find?_some h
  have hm := List.mem_of_find?_eq_some h
  simp only [Bool.and_eq_true, beq_iff_eq] at hp
  exact ⟨List.mem_range.mp hm, hp.1, hp.2⟩

theorem findArmed_none {core : CorePtr} {s : State n} (h : findArmed core s = none) {j : ℕ}
    (hj : j < rocketDfMaxNb) (hc : (s.nb j).core = some core) : (s.nb j).armed = false := by
  have hn := List.find?_eq_none.mp h j (List.mem_range.mpr hj)
  simpa [hc] using hn

/-- The block a removal finds is the one of its own slot. -/
theorem findArmed_slot {s : State n} (hs : s.wiring.Sound) (hu : s.df.isUnsafe = false)
    {core : CorePtr} {j : ℕ} (h : findArmed core s = some j) : j = core.idx := by
  obtain ⟨hj, ha, hc⟩ := findArmed_some h
  obtain ⟨a, d, _, hp, _⟩ := hs.armed hu hj ha
  change (s.nb j).core = some ⟨a, j⟩ at hp
  rw [hp] at hc
  rw [← Option.some.inj hc]

theorem coreRemovedUnregister_same (reply : Option Errno) (core : CorePtr) (d : Fin n)
    (s : State n) : SameBinding s (coreRemovedUnregister reply core d s) := by
  rcases coreRemovedUnregister_cases reply core d s with ⟨-, h⟩ | ⟨j, -, h | ⟨k, h⟩⟩
  · rw [h]
    exact ⟨rfl, rfl, rfl, rfl, rfl, rfl⟩
  · rw [h]
    exact ⟨rfl, rfl, rfl, rfl, rfl, rfl⟩
  · rw [h]
    exact ⟨rfl, rfl, rfl, rfl, rfl, rfl⟩

theorem coreRemovedUnregister_balanced (reply : Option Errno) {core : CorePtr} {d : Fin n}
    {s : State n} (hs : Balanced s) (hb : Bound core d s) (hrefs : s.df.refsHeld = false) :
    Balanced (coreRemovedUnregister reply core d s) ∧
      Removed core d (coreRemovedUnregister reply core d s) := by
  rcases coreRemovedUnregister_cases reply core d s with ⟨hf, h⟩ | ⟨j, hf, h | ⟨k, h⟩⟩
  · rw [h]
    refine ⟨hs, hb, hrefs, fun hu hi => ?_⟩
    by_contra hna
    obtain ⟨a, _, hr, hp, _⟩ := hs.sound.armed hu hi (by simpa using hna)
    obtain rfl : core.rdev = a := Option.some.inj (hb.rdev.symm.trans hr)
    exact hna (findArmed_none hf hi hp)
  · rw [h]
    refine ⟨⟨hs.sound.of_unsafe rfl rfl rfl rfl rfl, hs.refs.congr rfl rfl rfl rfl rfl⟩,
      hb.congr rfl rfl, hrefs, fun hu => by simp [State.setUnsafe] at hu⟩
  · rw [h]
    have hji (hu : s.df.isUnsafe = false) : j = core.idx := findArmed_slot hs.sound hu hf
    refine ⟨⟨hs.sound.disarm fun hu => ?_, hs.refs.congr rfl rfl rfl rfl rfl⟩,
      hb.congr rfl rfl, hrefs, fun hu _ => by simp [hji hu]⟩
    rw [hji hu]
    exact hb.slot

/-- `rocket_devfreq_core_removed` gives the boost up, whatever the clock and the notifier
chains answer. -/
theorem rocketDevfreqCoreRemoved_balanced (clk : ClkReply) (reply : Option Errno)
    {core : CorePtr} {d : Fin n} {s : State n} (hs : Balanced s) (hb : Bound core d s) :
    Balanced (rocketDevfreqCoreRemoved clk reply core d s) ∧
      Removed core d (rocketDevfreqCoreRemoved clk reply core d s) := by
  obtain ⟨h1, h2, h3, h4⟩ := coreRemovedLocked_balanced clk hs
  exact coreRemovedUnregister_balanced reply h1 (hb.congr h2 h3) h4

theorem finiLocked_cases (clk : ClkReply) (suspended : Bool) (s : State n) :
    ∃ c, finiLocked clk suspended s = { s.dropBoost with clock := c, df.core := none } := by
  obtain ⟨c, h⟩ := clkSetRate_snd clk rocketSafeRate (s.setReqRate rocketSafeRate)
  obtain ⟨c', h'⟩ := clkSetRate_snd clk rocketSafeRate
    ((s.setReqRate rocketSafeRate).setRefsHeld false)
  cases hr : s.df.refsHeld with
  | true =>
    have hr' : (s.setReqRate rocketSafeRate).df.refsHeld = true := hr
    refine ⟨c', ?_⟩
    simp only [finiLocked, hr', if_true, h', rocketDevfreqReleaseAll_eq]
    simp [State.dropBoost, State.setReqRate, State.setRefsHeld, boundBelow, hr]
  | false =>
    have hr' : (s.setReqRate rocketSafeRate).df.refsHeld = false := hr
    refine ⟨if suspended then s.clock else c, ?_⟩
    simp only [finiLocked, hr', Bool.false_eq_true, if_false, h]
    cases suspended <;> simp [State.dropBoost, State.setReqRate, hr]

/-- Disarming keeps the bindings and never arms a slot. -/
theorem rocketDfDisarmNotifiers_same (reply : ℕ → Option Errno)
    (stale : ℕ → Option (Fin n)) (s : State n) :
    SameBinding s (rocketDfDisarmNotifiers reply stale s) ∧
      (rocketDfDisarmNotifiers reply stale s).df.isUnsafe = s.df.isUnsafe ∧
      ∀ i, (s.nb i).armed = false →
        ((rocketDfDisarmNotifiers reply stale s).nb i).armed = false := by
  unfold rocketDfDisarmNotifiers
  induction rocketDfMaxNb with
  | zero => exact ⟨⟨rfl, rfl, rfl, rfl, rfl, rfl⟩, rfl, fun _ h => h⟩
  | succ k ih =>
    obtain ⟨h1, h2, h3⟩ := ih
    unfold disarmUpTo
    rcases disarmSlot_cases (reply k) (stale k) k (disarmUpTo reply stale k s) with
      h | ⟨d, m, _, _, h⟩
    · rw [h]
      exact ⟨h1, h2, h3⟩
    · rw [h]
      refine ⟨⟨h1.rdev, h1.cores, h1.core, h1.refsHeld, h1.clock, h1.switches⟩, h2, fun i hi => ?_⟩
      by_cases hik : i = k
      · subst hik
        simp
      · simpa [Function.update_of_ne hik] using h3 i hi

theorem finiLocked_balanced (clk : ClkReply) (suspended : Bool) {s : State n}
    (hs : Balanced s) : Balanced (finiLocked clk suspended s) := by
  obtain ⟨c, h⟩ := finiLocked_cases clk suspended s
  rw [h]
  refine ⟨⟨hs.sound.absent, hs.sound.slot_lt, hs.sound.slot_inj, hs.sound.numCores,
    fun h => by simp [State.wiring] at h, hs.sound.armed⟩, hs.refs.dropBoost.req, fun h => ?_,
    hs.refs.dropBoost.held⟩
  simp [State.dropBoost] at h

/-- After `rocket_devfreq_fini` of the core in slot 0 nobody owns devfreq. -/
theorem rocketDevfreqFini_balanced (env : FiniEnv n) {core : CorePtr} {d : Fin n}
    {s : State n} (hs : Balanced s) (hr : Removed core d s) :
    Balanced (rocketDevfreqFini env core s) ∧ Removed core d (rocketDevfreqFini env core s) ∧
      (core.idx = 0 → (rocketDevfreqFini env core s).df.core = none) := by
  unfold rocketDevfreqFini
  split_ifs with ho
  · have hs' : Balanced { s with df.cdev := false } :=
      ⟨hs.sound, hs.refs.congr rfl rfl rfl rfl rfl⟩
    have hf := finiLocked_balanced env.clk env.suspended hs'
    obtain ⟨c, heq⟩ := finiLocked_cases env.clk env.suspended { s with df.cdev := false }
    obtain ⟨h1, h2, h3⟩ := rocketDfDisarmNotifiers_same env.notifier env.stale
      (finiLocked env.clk env.suspended { s with df.cdev := false })
    refine ⟨rocketDfDisarmNotifiers_balanced env.notifier env.stale hf,
      ⟨hr.toBound.congr ?_ ?_, ?_, fun hu hi => h3 _ ?_⟩, fun _ => ?_⟩
    · rw [h1.rdev, heq]
      rfl
    · rw [h1.cores, heq]
      rfl
    · rw [h1.refsHeld, heq]
      rfl
    · rw [h2, heq] at hu
      rw [heq]
      exact hr.disarmed hu hi
    · rw [h1.core, heq]
  · refine ⟨hs, hr, fun h0 => ?_⟩
    -- an owner sits in slot 0 of this device, and would have been this core
    by_contra hc
    obtain ⟨p, hp⟩ := Option.ne_none_iff_exists'.mp hc
    obtain ⟨h1, h2, h3⟩ := hs.sound.owner hp
    change s.rdev = some p.rdev at h1
    have hdev : core.rdev = p.rdev := Option.some.inj (hr.rdev.symm.trans h1)
    refine ho ⟨?_, ?_⟩
    · simp [rocketDevfreqOwns, hp, hr.slot, hdev]
    · rw [hp]
      exact congrArg some (CorePtr.mk.injEq .. ▸ ⟨hdev.symm, h2.trans h0.symm⟩)

theorem rocketDevfreqCoreRemoved_cores (clk : ClkReply) (reply : Option Errno) (core : CorePtr)
    (d : Fin n) {s : State n} (hs : Balanced s) :
    (rocketDevfreqCoreRemoved clk reply core d s).cores = s.cores :=
  (coreRemovedUnregister_same reply core d _).cores.trans
    (coreRemovedLocked_balanced clk hs).2.2.1

theorem rocketDevfreqFini_cores (env : FiniEnv n) (core : CorePtr) (s : State n) :
    (rocketDevfreqFini env core s).cores = s.cores := by
  unfold rocketDevfreqFini
  split_ifs
  · obtain ⟨c, heq⟩ := finiLocked_cases env.clk env.suspended { s with df.cdev := false }
    rw [(rocketDfDisarmNotifiers_same env.notifier env.stale _).1.cores, heq]
    rfl
  · rfl

theorem unbindSlot_balanced {core : CorePtr} {d : Fin n} {s : State n} (hs : Balanced s)
    (hr : Removed core d s) (ho : core.idx = 0 → s.df.core = none) :
    Balanced (unbindSlot core.idx s) := by
  have hsound := hs.sound.unbind hr.slot ho hr.disarmed
  have hrefs {t : State n} (h1 : t.df.reqRate = s.df.reqRate) (h2 : t.df.refsHeld = false)
      (h3 : t.held = s.held) : Refs t := by
    refine ⟨fun hlt => ?_, fun h => by simp [h2] at h, fun d => ?_⟩
    · exact absurd (hs.refs.req (h1 ▸ hlt)) (by simp [hr.refsHeld])
    · rw [h2, h3, hs.refs.held d, hr.refsHeld]
      rfl
  unfold unbindSlot
  dsimp only
  split_ifs with h0
  · exact ⟨hsound.free h0, hrefs rfl hr.refsHeld rfl⟩
  · exact ⟨hsound, hrefs rfl hr.refsHeld rfl⟩

/-- Giving a slot back leaves the others as they are. -/
theorem unbindSlot_cores {core : CorePtr} {d : Fin n} {s : State n} (hs : Balanced s)
    (hr : Removed core d s) (ho : core.idx = 0 → s.df.core = none) {j : ℕ} (hj : j ≠ core.idx) :
    (unbindSlot core.idx s).cores j = s.cores j := by
  unfold unbindSlot
  dsimp only
  split_ifs with h0
  · have hempty := (hs.sound.unbind hr.slot ho hr.disarmed).empty h0 j
    simpa [State.freeDevice, hj] using hempty.symm
  · simp [State.setDev, hj]

theorem findCoreForDev_some {d : Fin n} {s : State n} {i : ℕ}
    (h : findCoreForDev d s = some i) : s.cores i = some d := by
  have hp := List.find?_some h
  simpa using hp

theorem pmRuntimePut_addHeld (d : Fin n) (s : State n) : pmRuntimePut d (s.addHeld d 1) = s := by
  have h : s.held d + 1 + -1 = s.held d := by omega
  simp only [pmRuntimePut, State.addHeld, Function.update_self, Function.update_idem, h,
    Function.update_eq_self]

theorem rocketCoreInit_cases (env : CoreInitEnv n) (d : Fin n) (s : State n) :
    (∃ e, rocketCoreInit env d s = (.error e, s)) ∨
      (∃ e, rocketCoreInit env d s = (.error e, (env.wake.power d s).2)) ∨
        rocketCoreInit env d s = (.ok (), (env.wake.power d s).2) := by
  unfold rocketCoreInit
  split
  · exact .inl ⟨_, rfl⟩
  · rcases pmRuntimeResumeAndGet_cases env.wake d s with ⟨e, h⟩ | ⟨_, h⟩
    · rw [h]
      exact .inr (.inl ⟨e, rfl⟩)
    · rw [h]
      exact .inr (.inr (by simp [pmRuntimePut_addHeld]))

theorem freeSlot_some {s : State n} {i : ℕ} (h : freeSlot s = some i) :
    i < n ∧ s.cores i = none := by
  have hp := List.find?_some h
  have hm := List.mem_of_find?_eq_some h
  exact ⟨List.mem_range.mp hm, by simpa using hp⟩

/-- `rocket_core_init` holds on to nothing. -/
theorem rocketCoreInit_frame (env : CoreInitEnv n) (d : Fin n) (s : State n) :
    Frame s (rocketCoreInit env d s).2 := by
  rcases rocketCoreInit_cases env d s with ⟨e, h⟩ | ⟨e, h⟩ | h
  · rw [h]
    exact .refl s
  · rw [h]
    exact env.wake.power_frame d s
  · rw [h]
    exact env.wake.power_frame d s

/-- A change of owner between nobody and the core in slot 0. -/
theorem Balanced.setOwner {s : State n} (hs : Balanced s) (hrefs : s.df.refsHeld = false)
    {o : Option CorePtr} {r : ℕ} (hr : r ≤ rocketSafeRate)
    (ho : ∀ p, o = some p → s.rdev = some p.rdev ∧ p.idx = 0 ∧ (s.cores 0).isSome) :
    Balanced { s with df.core := o, df.reqRate := r, df.refsHeld := false } := by
  refine ⟨⟨hs.sound.absent, hs.sound.slot_lt, hs.sound.slot_inj, hs.sound.numCores,
    fun h => ho _ h, hs.sound.armed⟩,
    fun h => absurd hr (not_le.mpr h), fun h => by simp at h, fun d => ?_⟩
  change s.held d = _
  rw [hs.refs.held d, hrefs]
  rfl

theorem initAtSafeRate_balanced (env : InitEnv n) {core : CorePtr} {d : Fin n} {s : State n}
    (hs : Balanced s) (hc : s.df.core = none) (hb : Bound core d s) (h0 : core.idx = 0) :
    Balanced (initAtSafeRate env core s) := by
  have hrefs := hs.of_no_owner hc
  have hreg : Balanced { s with df.reg := env.reg } :=
    ⟨hs.sound, hs.refs.congr rfl rfl rfl rfl rfl⟩
  have hown (o : Option CorePtr) (ho : o = none ∨ o = some core) :
      Balanced { s with
        busyLastRead := env.now
        df.reg := env.reg
        df.core := o
        df.reqRate := rocketSafeRate
        df.refsHeld := false } := by
    have h := hreg.setOwner hrefs (o := o) le_rfl fun p hp => by
      rcases ho with rfl | rfl
      · simp at hp
      · obtain rfl := Option.some.inj hp
        exact ⟨hb.rdev, h0, Option.isSome_iff_exists.mpr ⟨d, h0 ▸ hb.slot⟩⟩
    exact ⟨h.sound, h.refs.congr rfl rfl rfl rfl rfl⟩
  unfold initAtSafeRate
  dsimp only
  split_ifs
  · exact hreg
  · exact hown none (.inl rfl)
  · have h := rocketDfArmNotifiers_balanced env.notifier (hown (some core) (.inr rfl)) hb.rdev
    exact ⟨h.sound, h.refs.congr rfl rfl rfl rfl rfl⟩

theorem rocketDevfreqInit_balanced (env : InitEnv n) {core : CorePtr} {d : Fin n}
    {s : State n} (hs : Balanced s) (hb : Bound core d s) (h0 : core.idx = 0) :
    Balanced (rocketDevfreqInit env core d s) := by
  have hf := env.wake.power_frame d s
  unfold rocketDevfreqInit
  split_ifs with hc
  · exact hs
  · rcases pmRuntimeResumeAndGet_cases env.wake d s with ⟨e, h⟩ | ⟨_, h⟩
    · rw [h]
      exact hs.of_frame hf
    · rw [h]
      simp only [pmRuntimePut_addHeld]
      split_ifs
      · exact hs.of_frame hf
      · refine initAtSafeRate_balanced env (hs.of_frame hf) ?_ (hb.of_frame hf) h0
        exact (congrArg Wiring.core hf.wiring).trans (by simpa using hc)

theorem rocketDevfreqCoreAdded_balanced (notifier : ℕ → Option Errno) {core : CorePtr}
    {s : State n} (hs : Balanced s) (hr : s.rdev = some core.rdev) :
    Balanced (rocketDevfreqCoreAdded notifier core s) := by
  unfold rocketDevfreqCoreAdded
  split_ifs
  · exact rocketDfArmNotifiers_balanced notifier hs hr
  · exact hs

/-- While a slot is free nothing is held, and a free slot is not armed. -/
theorem Balanced.of_free {s : State n} (hs : Balanced s) {i : ℕ} (hi : i < n)
    (hfree : s.cores i = none) :
    s.df.refsHeld = false ∧
      (s.df.isUnsafe = false → i < rocketDfMaxNb → (s.nb i).armed = false) ∧
      (i = 0 → s.df.core = none) := by
  refine ⟨?_, fun hu h4 => ?_, fun h0 => ?_⟩
  · by_contra hr
    have := (hs.refs.bound (by simpa using hr)).2 i hi
    simp [hfree] at this
  · by_contra hna
    obtain ⟨_, _, _, _, hd, _⟩ := hs.sound.armed hu h4 (by simpa using hna)
    simp [State.wiring, hfree] at hd
  · by_contra hc
    obtain ⟨p, hp⟩ := Option.ne_none_iff_exists'.mp hc
    have := (hs.sound.owner hp).2.2
    simp [State.wiring, ← h0, hfree] at this

theorem bindSlot_balanced {a i : ℕ} {d : Fin n} {s : State n} (hs : Balanced s)
    (hr : s.rdev = some a) (hi : i < n) (hfree : s.cores i = none)
    (hd : ∀ j, s.cores j ≠ some d) :
    Balanced { s.setDev i (some d) with numCores := s.numCores + 1 } := by
  have hrefs := (hs.of_free hi hfree).1
  refine ⟨hs.sound.bind hr hi hfree hd, hs.refs.req, fun h => ?_, fun e => ?_⟩
  · change s.df.refsHeld = true at h
    simp [hrefs] at h
  · change s.held e = if s.df.refsHeld = true then _ else 0
    rw [hs.refs.held e, hrefs]
    rfl

/-- A core just put into its slot has no part in the boost yet. -/
theorem bindSlot_removed {a i : ℕ} {d : Fin n} {s : State n} (hs : Balanced s)
    (hr : s.rdev = some a) (hi : i < n) (hfree : s.cores i = none) :
    Removed ⟨a, i⟩ d { s.setDev i (some d) with numCores := s.numCores + 1 } ∧
      (i = 0 → { s.setDev i (some d) with numCores := s.numCores + 1 }.df.core = none) := by
  obtain ⟨h1, h2, h3⟩ := hs.of_free hi hfree
  exact ⟨⟨⟨hr, by simp [State.setDev]⟩, h1, h2⟩, h3⟩

/-- Fresh genpd data for a device that is not bound. -/
theorem attach_balanced {d : Fin n} {s : State n} (hs : Balanced s)
    (hd : ∀ i, s.cores i ≠ some d) :
    Balanced { s with powerNb := Function.update s.powerNb d none } := by
  refine ⟨⟨hs.sound.absent, hs.sound.slot_lt, hs.sound.slot_inj, hs.sound.numCores,
    hs.sound.owner, fun hu j hj hja => ?_⟩, hs.refs.congr rfl rfl rfl rfl rfl⟩
  obtain ⟨a, e, hr, hp, he, hn, hm⟩ := hs.sound.armed hu hj hja
  -- `d` is not bound, so no armed block speaks for it
  have hne : e ≠ d := fun h => hd j (h ▸ he)
  exact ⟨a, e, hr, hp, he, by simpa [State.wiring, hne] using hn, hm⟩

theorem Balanced.no_owner {s : State n} (hs : Balanced s) (hr : s.rdev = none) :
    s.df.core = none := by
  by_contra hc
  obtain ⟨p, hp⟩ := Option.ne_none_iff_exists'.mp hc
  exact absurd (hr.symm.trans (hs.sound.owner hp).1) (by simp)

theorem alloc_balanced {s : State n} (hs : Balanced s) (hr : s.rdev = none) (a : ℕ) :
    Balanced { s with rdev := some a, cores := fun _ => none, numCores := 0 } := by
  have hrefs := hs.of_no_owner (hs.no_owner hr)
  refine ⟨hs.sound.alloc hr a, hs.refs.req, fun h => ?_, fun e => ?_⟩
  · exact absurd (h.symm.trans hrefs) (by simp)
  · change s.held e = if s.df.refsHeld = true then _ else 0
    rw [hs.refs.held e, hrefs]
    rfl

theorem armUpTo_window (reply : ℕ → Option Errno) (a k : ℕ) (s : State n) :
    (armUpTo reply a k s).busyLastRead = s.busyLastRead ∧
      (armUpTo reply a k s).cores = s.cores := by
  induction k with
  | zero => exact ⟨rfl, rfl⟩
  | succ k ih =>
    rcases armSlot_cases (reply k) a k (armUpTo reply a k s) with h | ⟨_, -, -, h | h⟩
    all_goals
      show (armSlot (reply k) a k _).busyLastRead = _ ∧ (armSlot (reply k) a k _).cores = _
      rw [h]
      exact ih

theorem rocketDevfreqInit_cores (env : InitEnv n) (core : CorePtr) (d : Fin n) (s : State n) :
    (rocketDevfreqInit env core d s).cores = s.cores := by
  have hf : (env.wake.power d s).2.cores = s.cores :=
    congrArg Wiring.cores (env.wake.power_frame d s).wiring
  unfold rocketDevfreqInit
  split_ifs
  · rfl
  · rcases pmRuntimeResumeAndGet_cases env.wake d s with ⟨e, h⟩ | ⟨_, h⟩
    · rw [h]
      exact hf
    · simp only [h, pmRuntimePut_addHeld]
      split_ifs
      · exact hf
      · unfold initAtSafeRate
        dsimp only
        split_ifs
        · exact hf
        · exact hf
        · exact (armUpTo_window env.notifier core.rdev _ _).2.trans hf

/-- A registration is the start of a busy-time window. -/
theorem rocketDevfreqInit_window (env : InitEnv n) {core : CorePtr} {d : Fin n} {s : State n}
    (hc : s.df.core = none) (hreg : (rocketDevfreqInit env core d s).df.core.isSome) :
    (rocketDevfreqInit env core d s).busyLastRead = env.now := by
  have hnone : (env.wake.power d s).2.df.core = none :=
    (congrArg Wiring.core (env.wake.power_frame d s).wiring).trans hc
  unfold rocketDevfreqInit at hreg ⊢
  rw [if_neg (by simp [hc])] at hreg ⊢
  rcases pmRuntimeResumeAndGet_cases env.wake d s with ⟨e, h⟩ | ⟨_, h⟩
  · simp [h, hnone] at hreg
  · simp only [h, pmRuntimePut_addHeld] at hreg ⊢
    split_ifs at hreg ⊢
    · simp [hnone] at hreg
    · unfold initAtSafeRate at hreg ⊢
      dsimp only at hreg ⊢
      split_ifs at hreg ⊢
      · simp [hnone] at hreg
      · simp at hreg
      · exact (armUpTo_window env.notifier core.rdev _ _).1

end RocketNpu.Devfreq
