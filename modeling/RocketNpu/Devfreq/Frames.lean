import Mathlib.Order.Nat
import Mathlib.Data.Nat.Count
import Mathlib.Tactic.Simps.Basic
import RocketNpu.Devfreq.Binding

namespace RocketNpu.Devfreq

variable {n : ℕ}

/-- Who is bound where, who owns devfreq, and which notifier sits in which chain: the part
of the state that only probe and remove change. -/
structure Wiring (n : ℕ) where
  rdev : Option ℕ
  cores : ℕ → Option (Fin n)
  numCores : ℕ
  core : Option CorePtr
  isUnsafe : Bool
  nb : ℕ → RocketDfNb
  chain : Fin n → List ℕ
  powerNb : Fin n → Option ℕ

@[simps] def State.wiring (s : State n) : Wiring n :=
  ⟨s.rdev, s.cores, s.numCores, s.df.core, s.df.isUnsafe, s.nb, s.chain, s.powerNb⟩

/-- The answers of a clock on which setting the safe rate always works exactly. -/
def SafeExact (reply : ClkReply) : Prop := reply rocketSafeRate = .ok rocketSafeRate

def SwitchEnv.SafeExact (env : SwitchEnv n) : Prop := ∀ i, Devfreq.SafeExact (env.clk i)

def Wake.SafeExact (w : Wake n) : Prop := ∀ env, w.powerOn = some env → env.SafeExact

@[simp] theorem clkSetRate_wiring (reply : ClkReply) (rate : ℕ) (s : State n) :
    (clkSetRate reply rate s).2.wiring = s.wiring := by
  unfold clkSetRate
  split <;> rfl

@[simp] theorem clkSetRate_held (reply : ClkReply) (rate : ℕ) (s : State n) :
    (clkSetRate reply rate s).2.held = s.held := by
  unfold clkSetRate
  split <;> rfl

@[simp] theorem clkSetRate_switches (reply : ClkReply) (rate : ℕ) (s : State n) :
    (clkSetRate reply rate s).2.switches = s.switches := by
  unfold clkSetRate
  split <;> rfl

@[simp] theorem clkSetRate_df (reply : ClkReply) (rate : ℕ) (s : State n) :
    (clkSetRate reply rate s).2.df = s.df := by
  unfold clkSetRate
  split <;> rfl

theorem clkSetRate_cases (reply : ClkReply) (rate : ℕ) (s : State n) :
    (∃ e, clkSetRate reply rate s = (.error e, s)) ∨
      ∃ got, clkSetRate reply rate s = (.ok (), { s with clock := got }) := by
  unfold clkSetRate
  split
  · exact .inl ⟨_, rfl⟩
  · exact .inr ⟨_, rfl⟩

theorem clkSetRate_snd (reply : ClkReply) (rate : ℕ) (s : State n) :
    ∃ c, (clkSetRate reply rate s).2 = { s with clock := c } := by
  rcases clkSetRate_cases reply rate s with ⟨e, h⟩ | ⟨got, h⟩
  · exact ⟨s.clock, by rw [h]⟩
  · exact ⟨got, by rw [h]⟩

theorem lowerClock_cases (clk : ClkReply) (s : State n) :
    (∃ e, lowerClock clk s = (.error e, s)) ∨
      ∃ got, lowerClock clk s = (.ok (), { s with clock := got }) := by
  unfold lowerClock
  split_ifs
  · exact .inr ⟨s.clock, rfl⟩
  · exact clkSetRate_cases clk rocketSafeRate s

theorem clkSetRate_safe {reply : ClkReply} (h : SafeExact reply) (s : State n) :
    clkSetRate reply rocketSafeRate s = (.ok (), { s with clock := rocketSafeRate }) := by
  unfold SafeExact at h
  simp [clkSetRate, h]

/-- A change that leaves the wiring and the boost flag alone, and at most drops the request. -/
structure Drops (s t : State n) : Prop where
  wiring : t.wiring = s.wiring
  refsHeld : t.df.refsHeld = s.df.refsHeld
  reqRate : t.df.reqRate = s.df.reqRate ∨ t.df.reqRate = rocketSafeRate

/-- And that takes and puts no reference. -/
structure Frame (s t : State n) : Prop extends Drops s t where
  held : t.held = s.held

theorem Drops.trans {s t u : State n} (h : Drops s t) (k : Drops t u) : Drops s u := by
  refine ⟨k.wiring.trans h.wiring, k.refsHeld.trans h.refsHeld, ?_⟩
  rcases k.reqRate with hk | hk
  · rw [hk]
    exact h.reqRate
  · exact .inr hk

theorem Frame.refl (s : State n) : Frame s s := ⟨⟨rfl, rfl, .inl rfl⟩, rfl⟩

theorem Frame.trans {s t u : State n} (h : Frame s t) (k : Frame t u) : Frame s u :=
  ⟨h.toDrops.trans k.toDrops, k.held.trans h.held⟩

theorem lowerClock_frame (clk : ClkReply) (s : State n) : Frame s (lowerClock clk s).2 := by
  unfold lowerClock
  split_ifs
  · exact .refl s
  · refine ⟨⟨?_, ?_, .inl ?_⟩, ?_⟩ <;> simp

theorem dropRequest_frame (s : State n) : Frame s (dropRequest s) := by
  unfold dropRequest
  split_ifs
  · exact .refl s
  · exact ⟨⟨rfl, rfl, .inr rfl⟩, rfl⟩

theorem makeSafe_frame (clk : ClkReply) (s : State n) : Frame s (makeSafe clk s).2 :=
  (lowerClock_frame clk s).trans (dropRequest_frame _)

/-- A notifier call either does nothing or runs its section under `rate_lock`. -/
theorem rocketDfNotify_cases (clk : ClkReply) (stale : Option (Fin n)) (i : ℕ)
    (action : GenpdAction) (s : State n) :
    rocketDfNotify clk stale i action s = (.ok (), s) ∨
      rocketDfNotify clk stale i action s = makeSafe clk s := by
  unfold rocketDfNotify
  split
  · split_ifs
    · exact .inl rfl
    · cases action
      · exact .inr rfl
      · exact .inr rfl
      · exact .inl rfl
      · exact .inl rfl
  · exact .inl rfl

theorem rocketDfNotify_frame (clk : ClkReply) (stale : Option (Fin n)) (i : ℕ)
    (action : GenpdAction) (s : State n) :
    Frame s (rocketDfNotify clk stale i action s).2 := by
  rcases rocketDfNotify_cases clk stale i action s with h | h
  · rw [h]
    exact .refl s
  · rw [h]
    exact makeSafe_frame clk s

/-- What every notifier of a chain keeps is kept by the chain, whoever objects. -/
theorem notifyChain_keeps {P : State n → Prop} {env : SwitchEnv n} {action : GenpdAction}
    {l : List ℕ} {s : State n}
    (hn : ∀ i ∈ l, ∀ t, P t → P (rocketDfNotify (env.clk i) (env.stale i) i action t).2)
    (hs : P s) : P (notifyChain env action l s).2 := by
  induction l generalizing s with
  | nil => exact hs
  | cons i is ih =>
    have hi := hn i List.mem_cons_self s hs
    unfold notifyChain
    split
    · next heq => simpa only [heq] using hi
    · next heq =>
      rw [heq] at hi
      exact ih (fun j hj => hn j (List.mem_cons_of_mem i hj)) hi

theorem genpdSwitch_keeps {P : State n → Prop} {env : SwitchEnv n} {d : Fin n} {up : Bool}
    {s : State n}
    (hn : ∀ i ∈ s.chain d, ∀ t, P t → P (rocketDfNotify (env.clk i) (env.stale i) i
      (if up then .preOn else .preOff) t).2)
    (hsw : ∀ t l, P t → P { t with switches := l }) (hs : P s) :
    P (genpdSwitch env d up s).2 := by
  have h := notifyChain_keeps hn hs
  unfold genpdSwitch
  split
  · next heq => simpa only [heq] using h
  · next heq =>
    rw [heq] at h
    exact hsw _ _ h

theorem notifyChain_frame (env : SwitchEnv n) (action : GenpdAction) (l : List ℕ)
    (s : State n) : Frame s (notifyChain env action l s).2 := by
  apply notifyChain_keeps (P := Frame s) _ (.refl s)
  intro i _ t ht
  exact ht.trans (rocketDfNotify_frame (env.clk i) (env.stale i) i action t)

theorem genpdSwitch_frame (env : SwitchEnv n) (d : Fin n) (up : Bool) (s : State n) :
    Frame s (genpdSwitch env d up s).2 := by
  apply genpdSwitch_keeps (P := Frame s) _ _ (.refl s)
  · intro i _ t ht
    exact ht.trans (rocketDfNotify_frame (env.clk i) (env.stale i) i _ t)
  · intro t l ht
    exact ht.trans ⟨⟨rfl, rfl, .inl rfl⟩, rfl⟩

theorem Wake.power_frame (w : Wake n) (d : Fin n) (s : State n) :
    Frame s (w.power d s).2 := by
  unfold Wake.power
  split
  · exact .refl s
  · exact genpdSwitch_frame _ d true s

/-- A failed resume leaves no reference behind; a successful one leaves exactly one. -/
theorem pmRuntimeResumeAndGet_cases (w : Wake n) (d : Fin n) (s : State n) :
    (∃ e, pmRuntimeResumeAndGet w d s = (.error e, (w.power d s).2)) ∨
      w.fail = none ∧
        pmRuntimeResumeAndGet w d s = (.ok (), (w.power d s).2.addHeld d 1) := by
  unfold pmRuntimeResumeAndGet
  split
  · next heq => exact .inl ⟨_, by rw [heq]⟩
  · next heq =>
    split
    · exact .inl ⟨_, by rw [heq]⟩
    · next hf => exact .inr ⟨hf, by rw [heq]⟩

/-- How many of the first `k` slots device `d` is bound in. -/
def boundBelow (s : State n) (k : ℕ) (d : Fin n) : ℕ :=
  Nat.count (fun i => s.cores i = some d) k

theorem boundBelow_congr {s t : State n} (h : t.wiring = s.wiring) (k : ℕ) (d : Fin n) :
    boundBelow t k d = boundBelow s k d := by
  have hc : t.cores = s.cores := congrArg Wiring.cores h
  simp [boundBelow, hc]

theorem boundBelow_succ (s : State n) (k : ℕ) (d : Fin n) :
    boundBelow s (k + 1) d = boundBelow s k d + if s.cores k = some d then 1 else 0 := by
  simp [boundBelow, Nat.count_succ]

theorem releaseUpTo_eq (k : ℕ) (s : State n) :
    releaseUpTo k s = { s with held := fun d => s.held d - boundBelow s k d } := by
  induction k with
  | zero => simp [releaseUpTo, boundBelow]
  | succ k ih =>
    have hh (d : Fin n) : s.held d - boundBelow s (k + 1) d =
        s.held d - boundBelow s k d - if s.cores k = some d then 1 else 0 := by
      rw [boundBelow_succ]
      split_ifs <;> push_cast <;> omega
    simp only [releaseUpTo, ih, hh]
    cases hk : s.cores k with
    | none => simp
    | some e =>
      simp only [pmRuntimePut, State.addHeld, Option.some.injEq]
      congr 1
      funext d
      by_cases hd : d = e
      · subst hd
        simp only [Function.update_self, if_pos]
        omega
      · simp [Function.update_of_ne hd, Ne.symm hd]

theorem unwind_eq (k : ℕ) (s : State n) : unwind k s = releaseUpTo k s := by
  induction k generalizing s with
  | zero => rfl
  | succ k ih =>
    rw [releaseUpTo_eq]
    cases hk : s.cores k with
    | none => simp [unwind, hk, ih, releaseUpTo_eq, boundBelow_succ]
    | some e =>
      simp only [unwind, hk, ih, releaseUpTo_eq, pmRuntimePut, State.addHeld]
      congr 1
      funext d
      simp only [boundBelow_succ, hk, Option.some.injEq]
      change _ - (boundBelow s k d : ℤ) = _
      by_cases hd : d = e
      · subst hd
        simp only [Function.update_self, if_pos]
        push_cast
        omega
      · simp [Function.update_of_ne hd, Ne.symm hd]

/-- Either every bound core got one more reference, or none did. -/
theorem holdUpTo_cases (wake : ℕ → Wake n) (k : ℕ) (s : State n) :
    (∃ e t, holdUpTo wake k s = (.error e, t) ∧ Frame s t) ∨
      ∃ t, holdUpTo wake k s = (.ok (), t) ∧ Drops s t ∧
        t.held = fun d => s.held d + boundBelow s k d := by
  induction k with
  | zero => exact .inr ⟨s, rfl, (Frame.refl s).toDrops, by simp [boundBelow]⟩
  | succ k ih =>
    unfold holdUpTo
    rcases ih with ⟨e, t, heq, ht⟩ | ⟨t, heq, hl, hh⟩
    · simp only [heq]
      exact .inl ⟨e, t, rfl, ht⟩
    · have hc : t.cores k = s.cores k := congrFun (congrArg Wiring.cores hl.wiring) k
      simp only [heq, hc]
      cases hk : s.cores k with
      | none => exact .inr ⟨t, rfl, hl, by simp [hh, boundBelow_succ, hk]⟩
      | some d =>
        have hp := (wake k).power_frame d t
        have hlp := hl.trans hp.toDrops
        rcases pmRuntimeResumeAndGet_cases (wake k) d t with ⟨e, he⟩ | ⟨_, he⟩
        -- the rounds before the failure are undone, one reference each
        · refine .inl ⟨e, unwind k ((wake k).power d t).2, by simp only [he], ?_⟩
          rw [unwind_eq, releaseUpTo_eq]
          refine ⟨⟨hlp.wiring, hlp.refsHeld, hlp.reqRate⟩, ?_⟩
          funext d'
          change (Wake.power (wake k) d t).2.held d' - _ = _
          simp only [boundBelow_congr hlp.wiring, hp.held, hh]
          omega
        · refine .inr ⟨((wake k).power d t).2.addHeld d 1, by simp only [he],
            ⟨hlp.wiring, hlp.refsHeld, hlp.reqRate⟩, ?_⟩
          funext d'
          simp only [State.addHeld, boundBelow_succ, hk, Option.some.injEq, hp.held, hh]
          by_cases hd : d' = d
          · subst hd
            simp only [Function.update_self, if_pos]
            push_cast
            omega
          · simp [Function.update_of_ne hd, Ne.symm hd]

theorem holdAll_error {wake : ℕ → Wake n} {s t : State n} {e : Errno}
    (h : rocketDevfreqHoldAll wake s = (.error e, t)) : Frame s t := by
  rcases holdUpTo_cases wake n s with ⟨e', t', he, hf⟩ | ⟨t', he, _⟩
  · obtain ⟨-, rfl⟩ := Prod.mk.inj (he.symm.trans h)
    exact hf
  · exact absurd (Prod.mk.inj (he.symm.trans h)).1 (by simp)

theorem holdAll_ok {wake : ℕ → Wake n} {s t : State n}
    (h : rocketDevfreqHoldAll wake s = (.ok (), t)) :
    Drops s t ∧ t.held = fun d => s.held d + boundBelow s n d := by
  rcases holdUpTo_cases wake n s with ⟨e', t', he, _⟩ | ⟨t', he, hl, hh⟩
  · exact absurd (Prod.mk.inj (he.symm.trans h)).1 (by simp)
  · obtain ⟨-, rfl⟩ := Prod.mk.inj (he.symm.trans h)
    exact ⟨hl, hh⟩

theorem rocketDevfreqReleaseAll_eq (s : State n) :
    rocketDevfreqReleaseAll s = { s with held := fun d => s.held d - boundBelow s n d } :=
  releaseUpTo_eq n s

/-- After the bookkeeping the boost flag says whether the request is above the safe rate. -/
theorem settleRefs_eq (s : State n) :
    settleRefs s = { s with
      df.refsHeld := decide (rocketSafeRate < s.df.reqRate)
      held := fun d => s.held d - (if rocketSafeRate < s.df.reqRate then 0 else boundBelow s n d)
        - if s.df.refsHeld then boundBelow s n d else 0 } := by
  unfold settleRefs
  split_ifs with hlt hr hr
  · simp [rocketDevfreqReleaseAll_eq, State.setRefsHeld, hlt]
  · simp [State.setRefsHeld, hlt]
  · simp [rocketDevfreqReleaseAll_eq, State.setRefsHeld, hlt, boundBelow]
  · have hf : s.df.refsHeld = false := by simpa using hr
    simp [rocketDevfreqReleaseAll_eq, hlt, ← hf]

end RocketNpu.Devfreq
