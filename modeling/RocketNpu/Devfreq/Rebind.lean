import RocketNpu.Lib.Counting
import RocketNpu.Devfreq.Boost

namespace RocketNpu.Devfreq

variable {n : ℕ}

/-- What holds of the component on any clock: the bookkeeping of slots, notifiers and
references. -/
structure Balanced (s : State n) : Prop where
  sound : s.wiring.Sound
  refs : Refs s

theorem Balanced.of_frame {s t : State n} (hs : Balanced s) (hf : Frame s t) : Balanced t :=
  ⟨hf.wiring ▸ hs.sound, hs.refs.of_frame hf⟩

theorem Balanced.load (clock : ℕ) (rail : ℤ) : Balanced (.load clock rail : State n) := by
  refine ⟨⟨fun _ _ => rfl, ?_, ?_, ?_, ?_, ?_⟩, ?_, ?_, fun d => rfl⟩
  · simp [State.load]
  · simp [State.load]
  · simp [State.load, Nat.count_false]
  · simp [State.load]
  · simp [State.load]
  · exact fun h => absurd h (lt_irrefl _)
  · simp [State.load]

/-- Without an owner nothing is held. -/
theorem Balanced.of_no_owner {s : State n} (hs : Balanced s) (hc : s.df.core = none) :
    s.df.refsHeld = false := by
  by_contra hr
  have := (hs.refs.bound (by simpa using hr)).1
  simp [hc] at this

structure Inv (s : State n) : Prop where
  safe : Safe s
  refs : Refs s

theorem Inv.balanced {s : State n} (hs : Inv s) : Balanced s := ⟨hs.safe.sound, hs.refs⟩

theorem Inv.of_frame {s t : State n} (hs : Inv s) (hf : Frame s t) (hl : Lowers s t)
    (hsw : t.switches = s.switches) : Inv t :=
  ⟨hs.safe.of_lowers hf.wiring hl hsw, hs.refs.of_frame hf⟩

/-- The boost guard adds to the bookkeeping what it says of the clock. -/
theorem Balanced.inv_of_low {s : State n} (hs : Balanced s) (hlow : s.clock ≤ rocketSafeRate)
    (hsw : ∀ r ∈ s.switches, r ≤ rocketSafeRate) : Inv s :=
  ⟨⟨hs.sound, fun h => absurd hlow (not_le.mpr h), hsw⟩, hs.refs⟩

/-- Without an owner the clock is not above the safe rate and nothing is held. -/
theorem Inv.of_no_owner {s : State n} (hs : Inv s) (hc : s.df.core = none) :
    s.clock ≤ rocketSafeRate ∧ s.df.refsHeld = false := by
  constructor
  · by_contra hlt
    have := (hs.safe.boost (not_le.mp hlt)).core
    simp [State.wiring, hc] at this
  · exact hs.balanced.of_no_owner hc

theorem Wiring.Sound.of_unsafe {w v : Wiring n} (hw : w.Sound) (hr : v.rdev = w.rdev)
    (hc : v.cores = w.cores) (hn : v.numCores = w.numCores) (ho : v.core = w.core)
    (hu : v.isUnsafe = true) : v.Sound := by
  refine ⟨?_, ?_, ?_, ?_, ?_, fun h => absurd h (by simp [hu])⟩
  · rw [hr, hc]
    exact hw.absent
  · rw [hc]
    exact hw.slot_lt
  · rw [hc]
    exact hw.slot_inj
  · rw [hn, hc]
    exact hw.numCores
  · rw [hr, hc, ho]
    exact hw.owner

/-- Registering the block of slot `i` through its own device. -/
theorem Wiring.Sound.arm {w : Wiring n} (hw : w.Sound) {a i : ℕ} {d : Fin n}
    (hr : w.rdev = some a) (hd : w.cores i = some d) :
    ({ w with
      nb := Function.update w.nb i ⟨some ⟨a, i⟩, true⟩
      chain := Function.update w.chain d (i :: w.chain d)
      powerNb := Function.update w.powerNb d (some i) } : Wiring n).Sound := by
  refine ⟨hw.absent, hw.slot_lt, hw.slot_inj, hw.numCores, hw.owner, fun hu j hj hja => ?_⟩
  by_cases hji : j = i
  · subst hji
    exact ⟨a, d, hr, by simp, hd, by simp, by simp⟩
  · simp only [Function.update_of_ne hji] at hja ⊢
    obtain ⟨a', d', hr', hp, hd', hn, hm⟩ := hw.armed hu hj hja
    have hne : d' ≠ d := fun h => hji (hw.slot_inj (h ▸ hd') hd)
    exact ⟨a', d', hr', hp, hd', by simpa [hne] using hn, by simpa [hne] using hm⟩

/-- Taking down the block of slot `i`, whichever block its device had registered. -/
theorem Wiring.Sound.disarm {w : Wiring n} (hw : w.Sound) {i k : ℕ} {d : Fin n}
    (hd : w.isUnsafe = false → w.cores i = some d) :
    ({ w with
      nb := Function.update w.nb i ⟨none, false⟩
      chain := Function.update w.chain d ((w.chain d).erase k)
      powerNb := Function.update w.powerNb d none } : Wiring n).Sound := by
  refine ⟨hw.absent, hw.slot_lt, hw.slot_inj, hw.numCores, hw.owner, fun hu j hj hja => ?_⟩
  by_cases hji : j = i
  · subst hji
    simp at hja
  · simp only [Function.update_of_ne hji] at hja ⊢
    obtain ⟨a', d', hr', hp, hd', hn, hm⟩ := hw.armed hu hj hja
    have hne : d' ≠ d := fun h => hji (hw.slot_inj (h ▸ hd') (hd hu))
    exact ⟨a', d', hr', hp, hd', by simpa [hne] using hn, by simpa [hne] using hm⟩

theorem Refs.congr {s t : State n} (hs : Refs s) (hq : t.df.reqRate = s.df.reqRate)
    (hr : t.df.refsHeld = s.df.refsHeld) (hc : t.df.core = s.df.core)
    (hcores : t.cores = s.cores) (hh : t.held = s.held) : Refs t := by
  refine ⟨?_, ?_, fun d => ?_⟩
  · rw [hq, hr]
    exact hs.req
  · rw [hr, hc, hcores]
    exact hs.bound
  · rw [hh, hr, hs.held d, boundBelow, boundBelow, hcores]

theorem devPmGenpdAddNotifier_cases (reply : Option Errno) (d : Fin n) (i : ℕ)
    (s : State n) :
    (∃ e, devPmGenpdAddNotifier reply d i s = (.error e, s)) ∨
      devPmGenpdAddNotifier reply d i s = (.ok (), { s with
        chain := Function.update s.chain d (i :: s.chain d)
        powerNb := Function.update s.powerNb d (some i) }) := by
  unfold devPmGenpdAddNotifier
  split
  · exact .inl ⟨_, rfl⟩
  · exact .inl ⟨_, rfl⟩
  · exact .inr rfl

theorem devPmGenpdRemoveNotifier_cases (reply : Option Errno) (d : Fin n) (s : State n) :
    (∃ e, devPmGenpdRemoveNotifier reply d s = (.error e, s)) ∨
      ∃ k, devPmGenpdRemoveNotifier reply d s = (.ok (), { s with
        chain := Function.update s.chain d ((s.chain d).erase k)
        powerNb := Function.update s.powerNb d none }) := by
  unfold devPmGenpdRemoveNotifier
  split
  · exact .inl ⟨_, rfl⟩
  · exact .inl ⟨_, rfl⟩
  · exact .inr ⟨_, rfl⟩

/-- One round of arming leaves the slot as it was, or gives up on boost, or registers the
block of a bound slot that was not armed. -/
theorem armSlot_cases (reply : Option Errno) (a i : ℕ) (s : State n) :
    armSlot reply a i s = s ∨
      ∃ d, s.cores i = some d ∧ (s.nb i).armed = false ∧
        (armSlot reply a i s = (s.setNb i ⟨none, false⟩).setUnsafe ∨
          armSlot reply a i s = { s with
            nb := Function.update s.nb i ⟨some ⟨a, i⟩, true⟩
            chain := Function.update s.chain d (i :: s.chain d)
            powerNb := Function.update s.powerNb d (some i) }) := by
  unfold armSlot
  cases hd : s.cores i with
  | none => exact .inl rfl
  | some d =>
    dsimp only
    split_ifs with ha
    · exact .inl rfl
    · refine .inr ⟨d, rfl, by simpa using ha, ?_⟩
      rcases devPmGenpdAddNotifier_cases reply d i (s.setNb i ⟨some ⟨a, i⟩, false⟩) with
        ⟨e, h⟩ | h
      · rw [h]
        exact .inl (by simp [State.setNb])
      · rw [h]
        exact .inr (by simp [State.setNb])

theorem armSlot_balanced (reply : Option Errno) {a : ℕ} (i : ℕ) {s : State n}
    (hs : Balanced s) (hr : s.rdev = some a) :
    Balanced (armSlot reply a i s) ∧ (armSlot reply a i s).rdev = some a := by
  rcases armSlot_cases reply a i s with h | ⟨d, hd, -, h | h⟩
  · rw [h]
    exact ⟨hs, hr⟩
  · rw [h]
    exact ⟨⟨hs.sound.of_unsafe rfl rfl rfl rfl rfl, hs.refs.congr rfl rfl rfl rfl rfl⟩, hr⟩
  · rw [h]
    exact ⟨⟨hs.sound.arm hr hd, hs.refs.congr rfl rfl rfl rfl rfl⟩, hr⟩

theorem rocketDfArmNotifiers_balanced (reply : ℕ → Option Errno) {a : ℕ} {s : State n}
    (hs : Balanced s) (hr : s.rdev = some a) : Balanced (rocketDfArmNotifiers reply a s) := by
  suffices h : ∀ k, Balanced (armUpTo reply a k s) ∧ (armUpTo reply a k s).rdev = some a from
    (h _).1
  intro k
  induction k with
  | zero => exact ⟨hs, hr⟩
  | succ k ih => exact armSlot_balanced (reply k) k ih.1 ih.2

theorem armSlot_inv (reply : Option Errno) {a : ℕ} (i : ℕ) {s : State n} (hs : Inv s)
    (hr : s.rdev = some a) :
    Inv (armSlot reply a i s) ∧ (armSlot reply a i s).rdev = some a := by
  obtain ⟨hb, hr'⟩ := armSlot_balanced reply i hs.balanced hr
  refine ⟨?_, hr'⟩
  rcases armSlot_cases reply a i s with h | ⟨d, hd, hna, h⟩
  · rw [h]
    exact hs
  · -- an unarmed bound slot means the clock is not raised
    have hlow : s.clock ≤ rocketSafeRate := by
      by_contra hlt
      have := ((hs.safe.boost (not_le.mp hlt)).armed i (hs.safe.sound.slot_lt hd)).2
      simp [State.wiring, hna] at this
    rcases h with h | h
    · rw [h] at hb ⊢
      exact hb.inv_of_low hlow hs.safe.switched
    · rw [h] at hb ⊢
      exact hb.inv_of_low hlow hs.safe.switched

theorem rocketDfArmNotifiers_inv (reply : ℕ → Option Errno) {a : ℕ} {s : State n}
    (hs : Inv s) (hr : s.rdev = some a) : Inv (rocketDfArmNotifiers reply a s) := by
  suffices h : ∀ k, Inv (armUpTo reply a k s) ∧ (armUpTo reply a k s).rdev = some a from
    (h _).1
  intro k
  induction k with
  | zero => exact ⟨hs, hr⟩
  | succ k ih => exact armSlot_inv (reply k) k ih.1 ih.2

/-- One round of disarming leaves everything as it was or takes one block down. -/
theorem disarmSlot_cases (reply : Option Errno) (stale : Option (Fin n)) (i : ℕ)
    (s : State n) :
    disarmSlot reply stale i s = s ∨
      ∃ d k, (s.nb i).armed = true ∧ (s.nb i).core.bind (s.coreDev stale) = some d ∧
        disarmSlot reply stale i s = { s with
          nb := Function.update s.nb i ⟨none, false⟩
          chain := Function.update s.chain d ((s.chain d).erase k)
          powerNb := Function.update s.powerNb d none } := by
  unfold disarmSlot
  split
  · next d ha hd =>
    rcases devPmGenpdRemoveNotifier_cases reply d s with ⟨e, h⟩ | ⟨k, h⟩
    · rw [h]
      exact .inl rfl
    · rw [h]
      exact .inr ⟨d, k, ha, hd, rfl⟩
  · exact .inl rfl

theorem disarmSlot_balanced (reply : Option Errno) (stale : Option (Fin n)) {i : ℕ}
    (hi : i < rocketDfMaxNb) {s : State n} (hs : Balanced s) :
    Balanced (disarmSlot reply stale i s) := by
  rcases disarmSlot_cases reply stale i s with h | ⟨d, k, ha, hd, h⟩
  · rw [h]
    exact hs
  · rw [h]
    refine ⟨hs.sound.disarm fun hu => ?_, hs.refs.congr rfl rfl rfl rfl rfl⟩
    obtain ⟨a, d', hr, hp, hd', _⟩ := hs.sound.armed hu hi ha
    change s.rdev = some a at hr
    change (s.nb i).core = some ⟨a, i⟩ at hp
    simp only [hp, Option.bind_some, State.coreDev, hr, if_pos] at hd
    exact hd

theorem rocketDfDisarmNotifiers_balanced (reply : ℕ → Option Errno)
    (stale : ℕ → Option (Fin n)) {s : State n} (hs : Balanced s) :
    Balanced (rocketDfDisarmNotifiers reply stale s) := by
  suffices h : ∀ k ≤ rocketDfMaxNb, Balanced (disarmUpTo reply stale k s) from h _ le_rfl
  intro k hk
  induction k with
  | zero => exact hs
  | succ k ih => exact disarmSlot_balanced (reply k) (stale k) (by omega) (ih (by omega))

theorem Wiring.Sound.bind {w : Wiring n} (hw : w.Sound) {a i : ℕ} {d : Fin n}
    (hr : w.rdev = some a) (hi : i < n) (hfree : w.cores i = none)
    (hd : ∀ j, w.cores j ≠ some d) :
    ({ w with cores := Function.update w.cores i (some d), numCores := w.numCores + 1 } :
      Wiring n).Sound := by
  have hother {j : ℕ} {e : Fin n} (h : w.cores j = some e) :
      Function.update w.cores i (some d) j = some e := by
    have hji : j ≠ i := fun hji => by simp [hji, hfree] at h
    rwa [Function.update_of_ne hji]
  refine ⟨fun h => by simp [hr] at h, ?_, ?_, ?_, ?_, ?_⟩
  · intro j e he
    by_cases hji : j = i
    · exact hji ▸ hi
    · exact hw.slot_lt (by simpa only [Function.update_of_ne hji] using he)
  · intro j k e hj hk
    simp only [Function.update_apply] at hj hk
    split_ifs at hj hk with h1 h2 h2
    · rw [h1, h2]
    · exact absurd hk (Option.some.inj hj ▸ hd k)
    · exact absurd hj (Option.some.inj hk ▸ hd j)
    · exact hw.slot_inj hj hk
  · change w.numCores + 1 = _
    rw [Counting.count_flip (p := fun j => (w.cores j).isSome) hi (by simp [hfree]) (by simp)
      (fun j hj => by simp [Function.update_of_ne hj]), hw.numCores]
  · intro p hp
    obtain ⟨h1, h2, h3⟩ := hw.owner hp
    obtain ⟨e, he⟩ := Option.isSome_iff_exists.mp h3
    exact ⟨h1, h2, by simp [hother he]⟩
  · intro hu j hj ha
    obtain ⟨a', d', hr', hp, hd', hn, hm⟩ := hw.armed hu hj ha
    exact ⟨a', d', hr', hp, hother hd', hn, hm⟩

theorem Wiring.Sound.unbind {w : Wiring n} (hw : w.Sound) {i : ℕ} {d : Fin n}
    (hd : w.cores i = some d) (ho : i = 0 → w.core = none)
    (hna : w.isUnsafe = false → i < rocketDfMaxNb → (w.nb i).armed = false) :
    ({ w with cores := Function.update w.cores i none, numCores := w.numCores - 1 } :
      Wiring n).Sound := by
  have hback {j : ℕ} {e : Fin n} (h : Function.update w.cores i none j = some e) :
      w.cores j = some e := by
    have hji : j ≠ i := fun hji => by simp [hji] at h
    rwa [Function.update_of_ne hji] at h
  refine ⟨fun h j => ?_, fun h => hw.slot_lt (hback h), fun h k => hw.slot_inj (hback h)
    (hback k), ?_, ?_, ?_⟩
  · exact absurd (hw.absent h i) (by simp [hd])
  · change w.numCores - 1 = _
    have hc := Counting.count_flip (p := fun j => (Function.update w.cores i none j).isSome)
      (q := fun j => (w.cores j).isSome) (hw.slot_lt hd) (by simp) (by simp [hd])
      (fun j hj => by simp [Function.update_of_ne hj])
    rw [hw.numCores, hc, Nat.add_sub_cancel]
  · intro p hp
    obtain ⟨h1, h2, h3⟩ := hw.owner hp
    have hi : 0 ≠ i := fun h => by simp [ho h.symm] at hp
    exact ⟨h1, h2, by simpa only [Function.update_of_ne hi] using h3⟩
  · intro hu j hj ha
    obtain ⟨a', d', hr', hp, hd', hn, hm⟩ := hw.armed hu hj ha
    -- the slot given back was not armed
    have hji : j ≠ i := by
      rintro rfl
      simp [hna hu hj] at ha
    exact ⟨a', d', hr', hp, by simpa only [Function.update_of_ne hji] using hd', hn, hm⟩

theorem Wiring.Sound.empty {w : Wiring n} (hw : w.Sound) (h0 : w.numCores = 0) (i : ℕ) :
    w.cores i = none := by
  by_contra h
  obtain ⟨d, hd⟩ := Option.ne_none_iff_exists'.mp h
  have hlt := Nat.count_strict_mono (p := fun i => (w.cores i).isSome = true)
    (by simp [hd]) (hw.slot_lt hd)
  rw [← hw.numCores, h0] at hlt
  exact absurd hlt (Nat.not_lt_zero _)

/-- Freeing the device with its last core: nothing points into it any more. -/
theorem Wiring.Sound.free {w : Wiring n} (hw : w.Sound) (h0 : w.numCores = 0) :
    ({ w with rdev := none, cores := fun _ => none } : Wiring n).Sound := by
  have hnone := hw.empty h0
  refine ⟨fun _ _ => rfl, fun h => by simp at h, fun h => by simp at h, ?_, ?_, ?_⟩
  · change w.numCores = _
    simp [h0, Nat.count_false]
  · intro p hp
    have := (hw.owner hp).2.2
    simp [hnone] at this
  · intro hu j hj ha
    obtain ⟨_, _, _, _, hd, _⟩ := hw.armed hu hj ha
    simp [hnone] at hd

/-- A fresh device with all its slots free. -/
theorem Wiring.Sound.alloc {w : Wiring n} (hw : w.Sound) (hr : w.rdev = none) (a : ℕ) :
    ({ w with rdev := some a, cores := fun _ => none, numCores := 0 } : Wiring n).Sound := by
  refine ⟨fun _ _ => rfl, fun h => by simp at h, fun h => by simp at h, ?_, ?_, ?_⟩
  · simp [Nat.count_false]
  · intro p hp
    have := (hw.owner hp).1
    simp [hr] at this
  · intro hu j hj ha
    obtain ⟨_, _, hr', _⟩ := hw.armed hu hj ha
    simp [hr] at hr'

end RocketNpu.Devfreq
