import Mathlib.Data.Fintype.EquivFin
import Mathlib.Data.Finset.Card
import RocketNpu.Devfreq.System

namespace RocketNpu.Devfreq

variable {n : ℕ}

/-- A block in the armed table of a component that is not `unsafe` belongs to the core
bound in its slot and sits in the chain of that core's domain. -/
structure Wiring.Sound (w : Wiring n) : Prop where
  absent : w.rdev = none → ∀ i, w.cores i = none
  slot_lt : ∀ {i d}, w.cores i = some d → i < n
  slot_inj : ∀ {i j d}, w.cores i = some d → w.cores j = some d → i = j
  numCores : w.numCores = Nat.count (fun i => (w.cores i).isSome) n
  owner : ∀ {p}, w.core = some p → w.rdev = some p.rdev ∧ p.idx = 0 ∧ (w.cores 0).isSome
  armed : w.isUnsafe = false → ∀ {i}, i < rocketDfMaxNb → (w.nb i).armed = true →
    ∃ a d, w.rdev = some a ∧ (w.nb i).core = some ⟨a, i⟩ ∧ w.cores i = some d ∧
      w.powerNb d = some i ∧ i ∈ w.chain d

/-- Every slot's block is armed, for an owner that is not `unsafe`. -/
structure Wiring.Guarded (w : Wiring n) : Prop where
  core : w.core.isSome
  safe : w.isUnsafe = false
  armed : ∀ i < n, i < rocketDfMaxNb ∧ (w.nb i).armed = true

/-- The count of `rocket_df_all_guarded` speaks for every slot. -/
theorem guarded_of_allGuarded {s : State n} (hs : s.wiring.Sound) (hc : s.df.core.isSome)
    (hu : s.df.isUnsafe = false) (hg : rocketDfAllGuarded s) : s.wiring.Guarded := by
  have hcount : Nat.count (fun i => (s.nb i).armed = true) rocketDfMaxNb = n := by
    have h : armedCount s = n := of_decide_eq_true hg
    simpa [armedCount, Nat.count] using h
  let A := (Finset.range rocketDfMaxNb).filter fun i => (s.nb i).armed = true
  have hsub : A ⊆ Finset.range n := by
    intro i hi
    obtain ⟨hi4, hia⟩ := Finset.mem_filter.mp hi
    obtain ⟨_, _, _, _, hd, _⟩ := hs.armed hu (Finset.mem_range.mp hi4) hia
    exact Finset.mem_range.mpr (hs.slot_lt hd)
  have hcard : A.card = n := by
    rw [← hcount, Nat.count_eq_card_filter_range]
  -- `n` armed slots, all of them below `n`
  have heq : A = Finset.range n :=
    Finset.eq_of_subset_of_card_le hsub (by simp [hcard])
  refine ⟨hc, hu, fun i hi => ?_⟩
  have hi' : i ∈ A := heq ▸ Finset.mem_range.mpr hi
  obtain ⟨hi4, hia⟩ := Finset.mem_filter.mp hi'
  exact ⟨Finset.mem_range.mp hi4, hia⟩

/-- A block that `rocket_df_notify` acts on. -/
def Wiring.Live (w : Wiring n) (i : ℕ) : Prop :=
  ∃ p, (w.nb i).core = some p ∧ w.core.isSome ∧ w.rdev = some p.rdev ∧ (w.cores p.idx).isSome

/-- With every slot guarded, every device's domain has a live block in its chain. -/
theorem Wiring.Guarded.live {w : Wiring n} (hg : w.Guarded) (hs : w.Sound) (d : Fin n) :
    ∃ i ∈ w.chain d, w.Live i := by
  have hdev (i : Fin n) := hs.armed hg.safe (hg.armed i i.isLt).1 (hg.armed i i.isLt).2
  choose a f ha hp hf hn hm using hdev
  have hinj : Function.Injective f := by
    intro i j hij
    exact Fin.ext (hs.slot_inj (hf i) (hij ▸ hf j))
  -- `n` slots hold `n` different devices, so `d` is in one of them
  obtain ⟨i, rfl⟩ := (Finite.injective_iff_surjective.mp hinj) d
  exact ⟨i, hm i, _, hp i, hg.core, ha i, by simp [hf i]⟩

theorem Wiring.Guarded.bound {w : Wiring n} (hg : w.Guarded) (hs : w.Sound) :
    w.core.isSome ∧ ∀ i < n, (w.cores i).isSome := by
  refine ⟨hg.core, fun i hi => ?_⟩
  obtain ⟨_, d, _, _, hd, _⟩ := hs.armed hg.safe (hg.armed i hi).1 (hg.armed i hi).2
  exact Option.isSome_iff_exists.mpr ⟨d, hd⟩

/-- The clock and the request are each where they were or at the safe rate. -/
structure Lowers (s t : State n) : Prop where
  clock : t.clock = s.clock ∨ t.clock = rocketSafeRate
  reqRate : t.df.reqRate = s.df.reqRate ∨ t.df.reqRate = rocketSafeRate

theorem Lowers.refl (s : State n) : Lowers s s := ⟨.inl rfl, .inl rfl⟩

theorem Lowers.trans {s t u : State n} (h : Lowers s t) (k : Lowers t u) : Lowers s u := by
  obtain ⟨hc, hr⟩ := h
  obtain ⟨kc, kr⟩ := k
  constructor
  · rcases kc with kc | kc
    · rwa [kc]
    · exact .inr kc
  · rcases kr with kr | kr
    · rwa [kr]
    · exact .inr kr

theorem lowerClock_safe {clk : ClkReply} (h : SafeExact clk) (s : State n) :
    lowerClock clk s = (.ok (), { s with clock := rocketSafeRate }) := by
  unfold lowerClock
  split_ifs with hc
  · rw [← hc]
  · exact clkSetRate_safe h s

theorem dropRequest_eq (s : State n) : dropRequest s = s.setReqRate rocketSafeRate := by
  unfold dropRequest
  split_ifs with h
  · rw [State.setReqRate, ← h]
  · rfl

theorem makeSafe_eq {clk : ClkReply} (h : SafeExact clk) (s : State n) :
    makeSafe clk s =
      (.ok (), { s with clock := rocketSafeRate, df.reqRate := rocketSafeRate }) := by
  simp [makeSafe, lowerClock_safe h, dropRequest_eq, State.setReqRate]

theorem rocketDfNotify_lowers {clk : ClkReply} (h : SafeExact clk) (stale : Option (Fin n))
    (i : ℕ) (action : GenpdAction) (s : State n) :
    (rocketDfNotify clk stale i action s).1 = .ok () ∧
      Lowers s (rocketDfNotify clk stale i action s).2 := by
  rcases rocketDfNotify_cases clk stale i action s with he | he
  · rw [he]
    exact ⟨rfl, .refl s⟩
  · rw [he, makeSafe_eq h]
    exact ⟨rfl, .inr rfl, .inr rfl⟩

theorem rocketDfNotify_live {clk : ClkReply} (stale : Option (Fin n)) {i : ℕ} (up : Bool)
    {s : State n} (hl : s.wiring.Live i) :
    rocketDfNotify clk stale i (if up then .preOn else .preOff) s = makeSafe clk s := by
  obtain ⟨p, hp, hc, hr, hb⟩ := hl
  obtain ⟨o, ho⟩ := Option.isSome_iff_exists.mp hc
  obtain ⟨d, hd⟩ := Option.isSome_iff_exists.mp hb
  change (s.nb i).core = some p at hp
  change s.df.core = some o at ho
  change s.rdev = some p.rdev at hr
  change s.cores p.idx = some d at hd
  cases up <;> simp [rocketDfNotify, hp, ho, State.coreDev, hr, hd]

theorem notifyChain_lowers {env : SwitchEnv n} (h : env.SafeExact) (action : GenpdAction)
    (l : List ℕ) (s : State n) :
    (notifyChain env action l s).1 = .ok () ∧ Lowers s (notifyChain env action l s).2 := by
  induction l generalizing s with
  | nil => exact ⟨rfl, .refl s⟩
  | cons i is ih =>
    obtain ⟨h1, h2⟩ := rocketDfNotify_lowers (h i) (env.stale i) i action s
    unfold notifyChain
    split
    · next heq => simp [heq] at h1
    · next heq =>
      rw [heq] at h2
      exact ⟨(ih _).1, h2.trans (ih _).2⟩

/-- A chain with a live block leaves the clock at the safe rate. -/
theorem notifyChain_live {env : SwitchEnv n} (h : env.SafeExact) (up : Bool) {l : List ℕ}
    {s : State n} (hl : ∃ i ∈ l, s.wiring.Live i) :
    (notifyChain env (if up then .preOn else .preOff) l s).2.clock = rocketSafeRate := by
  induction l generalizing s with
  | nil => simp at hl
  | cons i is ih =>
    obtain ⟨h1, -⟩ := rocketDfNotify_lowers (h i) (env.stale i) i
      (if up then .preOn else .preOff) s
    have hw := (rocketDfNotify_frame (env.clk i) (env.stale i) i
      (if up then .preOn else .preOff) s).wiring
    unfold notifyChain
    split
    · next heq => simp [heq] at h1
    · next t heq =>
      rw [heq] at hw
      by_cases hi : s.wiring.Live i
      · -- the head sets the clock, and what follows cannot raise it
        rw [rocketDfNotify_live (env.stale i) up hi, makeSafe_eq (h i)] at heq
        have hc : t.clock = rocketSafeRate := by rw [← (Prod.mk.inj heq).2]
        rcases (notifyChain_lowers h _ is t).2.clock with hk | hk
        · rw [hk, hc]
        · exact hk
      · apply ih
        obtain ⟨j, hj, hlive⟩ := hl
        rcases List.mem_cons.mp hj with rfl | hj
        · exact absurd hlive hi
        · exact ⟨j, hj, hw ▸ hlive⟩

/-- The boost guard: a clock above the safe rate needs every slot guarded, and no domain
was ever switched at such a clock. -/
structure Safe (s : State n) : Prop where
  sound : s.wiring.Sound
  boost : rocketSafeRate < s.clock → s.wiring.Guarded
  switched : ∀ r ∈ s.switches, r ≤ rocketSafeRate

theorem Safe.of_lowers {s t : State n} (hs : Safe s) (hw : t.wiring = s.wiring)
    (hc : Lowers s t) (hsw : t.switches = s.switches) : Safe t := by
  refine ⟨hw ▸ hs.sound, fun hlt => ?_, hsw ▸ hs.switched⟩
  rcases hc.clock with h | h
  · exact hw ▸ hs.boost (h ▸ hlt)
  · exact absurd hlt (by rw [h]; exact lt_irrefl _)

theorem notifyChain_switches (env : SwitchEnv n) (action : GenpdAction) (l : List ℕ)
    (s : State n) : (notifyChain env action l s).2.switches = s.switches := by
  apply notifyChain_keeps (P := fun t => t.switches = s.switches) _ rfl
  intro i _ t ht
  rcases rocketDfNotify_cases (env.clk i) (env.stale i) i action t with h | h
  · rwa [h]
  · rw [h, makeSafe, dropRequest_eq, lowerClock]
    split_ifs
    · exact ht
    · simpa [State.setReqRate] using ht

theorem genpdSwitch_lowers {env : SwitchEnv n} (h : env.SafeExact) (d : Fin n) (up : Bool)
    (s : State n) : Lowers s (genpdSwitch env d up s).2 := by
  apply genpdSwitch_keeps (P := Lowers s) _ _ (.refl s)
  · intro i _ t ht
    exact ht.trans (rocketDfNotify_lowers (h i) (env.stale i) i _ t).2
  · intro t l ht
    exact ht.trans ⟨.inl rfl, .inl rfl⟩

/-- Switching a domain runs its notifiers first, so the clock is safe by then. -/
theorem genpdSwitch_safe {env : SwitchEnv n} (h : env.SafeExact) (d : Fin n) (up : Bool)
    {s : State n} (hs : Safe s) : Safe (genpdSwitch env d up s).2 := by
  obtain ⟨h1, h2⟩ := notifyChain_lowers h (if up then .preOn else .preOff) (s.chain d) s
  have hw := (notifyChain_frame env (if up then .preOn else .preOff) (s.chain d) s).wiring
  have hsw := notifyChain_switches env (if up then .preOn else .preOff) (s.chain d) s
  have hclock : (notifyChain env (if up then .preOn else .preOff) (s.chain d) s).2.clock ≤
      rocketSafeRate := by
    -- above the safe rate the domain has a live block; below it nothing raises the clock
    by_cases hlt : rocketSafeRate < s.clock
    · exact (notifyChain_live h up ((hs.boost hlt).live hs.sound d)).le
    · rcases h2.clock with hc | hc
      · rw [hc]
        exact not_lt.mp hlt
      · exact hc.le
  unfold genpdSwitch
  split
  · next heq => simp [heq] at h1
  · next t heq =>
    rw [heq] at hw hsw hclock h2
    have ht : Safe t := hs.of_lowers hw h2 hsw
    refine ⟨ht.sound, ht.boost, ?_⟩
    intro r hr
    rcases List.mem_cons.mp hr with rfl | hr
    · exact hclock
    · exact ht.switched r hr

theorem Wake.power_lowers {w : Wake n} (h : w.SafeExact) (d : Fin n) (s : State n) :
    Lowers s (w.power d s).2 := by
  unfold Wake.power
  split
  · exact .refl s
  · next env heq => exact genpdSwitch_lowers (h env heq) d true s

theorem Wake.power_safe {w : Wake n} (h : w.SafeExact) (d : Fin n) {s : State n}
    (hs : Safe s) : Safe (w.power d s).2 := by
  unfold Wake.power
  split
  · exact hs
  · next env heq => exact genpdSwitch_safe (h env heq) d true hs

/-- What powering up the devices bound now keeps, and does not depend on the references, is
kept by waking all of them, whether it works or not. -/
theorem holdUpTo_keeps_bound {wake : ℕ → Wake n} {P : State n → Prop} {s : State n}
    (hpower : ∀ i d t, s.cores i = some d → P t → P ((wake i).power d t).2)
    (hheld : ∀ t h, P t → P { t with held := h }) (k : ℕ) (hs : P s) :
    P (holdUpTo wake k s).2 := by
  induction k with
  | zero => exact hs
  | succ k ih =>
    unfold holdUpTo
    split
    · next heq => simpa only [heq] using ih
    · next t heq =>
      have hw : t.cores = s.cores := by
        rcases holdUpTo_cases wake k s with ⟨e, u, he, _⟩ | ⟨u, he, hl, _⟩
        · exact absurd (heq.symm.trans he) (by simp)
        · rw [← (Prod.mk.inj (he.symm.trans heq)).2]
          exact congrArg Wiring.cores hl.wiring
      rw [heq] at ih
      split
      · exact ih
      · next d hd =>
        have hpow := hpower k d t (hw ▸ hd) ih
        rcases pmRuntimeResumeAndGet_cases (wake k) d t with ⟨e, he⟩ | ⟨_, he⟩
        · rw [he]
          dsimp only
          rw [unwind_eq, releaseUpTo_eq]
          exact hheld _ _ hpow
        · rw [he]
          exact hheld _ _ hpow

theorem holdUpTo_keeps {wake : ℕ → Wake n} {P : State n → Prop}
    (hpower : ∀ i d s, P s → P ((wake i).power d s).2)
    (hheld : ∀ s h, P s → P { s with held := h }) (k : ℕ) {s : State n} (hs : P s) :
    P (holdUpTo wake k s).2 :=
  holdUpTo_keeps_bound (fun i d t _ ht => hpower i d t ht) hheld k hs

theorem holdUpTo_lowers {wake : ℕ → Wake n} (h : ∀ i, (wake i).SafeExact) (k : ℕ)
    (s : State n) : Lowers s (holdUpTo wake k s).2 := by
  apply holdUpTo_keeps (P := Lowers s) (fun i d t ht => ?_) (fun t hd ht => ?_) k (.refl s)
  · exact ht.trans ((wake i).power_lowers (h i) d t)
  · exact ht.trans ⟨.inl rfl, .inl rfl⟩

theorem holdUpTo_safe {wake : ℕ → Wake n} (h : ∀ i, (wake i).SafeExact) (k : ℕ)
    {s : State n} (hs : Safe s) : Safe (holdUpTo wake k s).2 := by
  apply holdUpTo_keeps (P := Safe) (fun i d t ht => ?_) (fun t hd ht => ?_) k hs
  · exact (wake i).power_safe (h i) d ht
  · exact ht.of_lowers rfl ⟨.inl rfl, .inl rfl⟩ rfl

/-- The references devfreq holds: one on each bound core while it boosts, else none. -/
structure Refs (s : State n) : Prop where
  req : rocketSafeRate < s.df.reqRate → s.df.refsHeld = true
  bound : s.df.refsHeld = true → s.df.core.isSome ∧ ∀ i < n, (s.cores i).isSome
  held : ∀ d, s.held d = if s.df.refsHeld then (boundBelow s n d : ℤ) else 0

theorem Refs.of_frame {s t : State n} (hs : Refs s) (hf : Frame s t) : Refs t := by
  have hcore : t.df.core = s.df.core := congrArg Wiring.core hf.wiring
  have hcores : t.cores = s.cores := congrArg Wiring.cores hf.wiring
  refine ⟨fun hlt => ?_, fun hr => ?_, fun d => ?_⟩
  · rcases hf.reqRate with h | h
    · rw [hf.refsHeld]
      exact hs.req (h ▸ hlt)
    · exact absurd hlt (by rw [h]; exact lt_irrefl _)
  · rw [hcore, hcores]
    exact hs.bound (hf.refsHeld ▸ hr)
  · rw [hf.held, hf.refsHeld, boundBelow_congr hf.wiring]
    exact hs.held d

/-- The bookkeeping after a rate change keeps one set of references or none. -/
theorem settleRefs_refs {s : State n}
    (hb : rocketSafeRate < s.df.reqRate → s.df.core.isSome ∧ ∀ i < n, (s.cores i).isSome)
    (hh : ∀ d, s.held d = (if s.df.refsHeld then (boundBelow s n d : ℤ) else 0) +
      boundBelow s n d) : Refs (settleRefs s) := by
  rw [settleRefs_eq]
  refine ⟨fun hlt => by simpa using hlt, fun hr => hb (by simpa using hr), fun d => ?_⟩
  change s.held d - _ - _ = if decide _ = true then (boundBelow s n d : ℤ) else 0
  rw [hh d]
  simp only [decide_eq_true_eq]
  split_ifs <;> omega

end RocketNpu.Devfreq
