import RocketNpu.Devfreq.Removal

namespace RocketNpu.Devfreq
open Runs

variable {n : ℕ}

/-- A target call that gets as far as setting a rate above the safe one. -/
def Raises (env : TargetEnv n) (opp : Except Errno ℕ) (s : State n) : Prop :=
  ∃ freq, opp = .ok freq ∧ rocketSafeRate < freq ∧ Passes freq s ∧
    ∀ i < n, (s.cores i).isSome → (env.wake i).fail = none

/-- From the section that lowers the clock to the write that the gate of
`rocket_devfreq_target` can see. -/
def RemovePc.inWindow : RemovePc → Bool
  | .lowered | .unregistered _ | .removalFailed => true
  | _ => false

/-- No target call raises the clock within the window. -/
def Unraced (x : Removal n) (op : RemovalOp n) : Prop :=
  match op with
  | .remove => True
  | .target env opp => x.pc.inWindow = true → ¬ Raises env opp x.s

def RemovePc.cleared : RemovePc → Bool
  | .devCleared | .done => true
  | _ => false

/-- What is wanted of the removal of `d` at every point. -/
def RemovedSafely (d : Fin n) (x : Removal n) : Prop :=
  (x.down = true → x.s.clock ≤ rocketSafeRate) ∧ (x.pc.cleared = true → x.s.held d = 0)

/-- No boost and no references. -/
structure Quiet (s : State n) : Prop where
  clock : s.clock ≤ rocketSafeRate
  refsHeld : s.df.refsHeld = false
  held : ∀ e, s.held e = 0

/-- The gate of `rocket_devfreq_target` refuses every rate above the safe one. -/
def Shut (s : State n) : Prop :=
  s.df.core = none ∨ s.df.isUnsafe = true ∨ armedCount s < n

theorem Shut.not_passes {s : State n} (h : Shut s) {freq : ℕ} (hf : rocketSafeRate < freq) :
    ¬ Passes freq s := by
  intro hp
  obtain ⟨hu, hg⟩ := hp.guard hf
  have hn : armedCount s = n := of_decide_eq_true hg
  rcases h with h | h | h
  · exact absurd hp.core (by simp [h])
  · exact absurd (hu.symm.trans h) (by simp)
  · omega

theorem armedCount_le {s t : State n} (h : ∀ i, (t.nb i).armed = true → (s.nb i).armed = true) :
    armedCount t ≤ armedCount s :=
  List.countP_mono_left fun i _ => h i

theorem Shut.mono {s t : State n} (hs : Shut s) (hc : t.df.core = s.df.core ∨ t.df.core = none)
    (hu : t.df.isUnsafe = s.df.isUnsafe)
    (ha : ∀ i, (t.nb i).armed = true → (s.nb i).armed = true) : Shut t := by
  rcases hs with h | h | h
  · rcases hc with hc | hc
    · exact .inl (hc.trans h)
    · exact .inl hc
  · exact .inr (.inl (hu.trans h))
  · exact .inr (.inr (lt_of_le_of_lt (armedCount_le ha) h))

/-- Armed slots below `n`, one slot below `n` not armed: the count falls short. -/
theorem armedCount_lt {s : State n} {i : ℕ} (hi : i < n)
    (hna : i < rocketDfMaxNb → (s.nb i).armed = false)
    (hb : ∀ j < rocketDfMaxNb, (s.nb j).armed = true → j < n) : armedCount s < n := by
  have hcount : armedCount s =
      ((Finset.range rocketDfMaxNb).filter fun j => (s.nb j).armed = true).card := by
    rw [← Nat.count_eq_card_filter_range]
    simp [armedCount, Nat.count]
  have hsub : ((Finset.range rocketDfMaxNb).filter fun j => (s.nb j).armed = true) ⊂
      Finset.range n := by
    refine Finset.ssubset_iff_of_subset (fun j hj => ?_) |>.mpr ⟨i, Finset.mem_range.mpr hi, ?_⟩
    · obtain ⟨hj4, hja⟩ := Finset.mem_filter.mp hj
      exact Finset.mem_range.mpr (hb j (Finset.mem_range.mp hj4) hja)
    · intro him
      obtain ⟨hi4, hia⟩ := Finset.mem_filter.mp him
      exact absurd (hia.symm.trans (hna (Finset.mem_range.mp hi4))) (by simp)
  have hlt := Finset.card_lt_card hsub
  rw [Finset.card_range] at hlt
  omega

theorem Wiring.Sound.armed_lt {s : State n} (hs : s.wiring.Sound)
    (hu : s.df.isUnsafe = false) : ∀ j < rocketDfMaxNb, (s.nb j).armed = true → j < n := by
  intro j hj hja
  obtain ⟨_, _, _, _, hd, _⟩ := hs.armed hu hj hja
  exact hs.slot_lt hd

theorem holdUpTo_ok_fail {wake : ℕ → Wake n} {k : ℕ} {s t : State n}
    (h : holdUpTo wake k s = (.ok (), t)) :
    ∀ i < k, (s.cores i).isSome → (wake i).fail = none := by
  induction k generalizing t with
  | zero => simp
  | succ k ih =>
    unfold holdUpTo at h
    split at h
    · simp at h
    · next u heq =>
      have hw : u.wiring = s.wiring := by
        rcases holdUpTo_cases wake k s with ⟨e, t', he, _⟩ | ⟨t', he, hl, _⟩
        · exact absurd (Prod.mk.inj (he.symm.trans heq)).1 (by simp)
        · exact (Prod.mk.inj (he.symm.trans heq)).2 ▸ hl.wiring
      have hc : u.cores k = s.cores k := congrFun (congrArg Wiring.cores hw) k
      intro i hi hb
      rcases Nat.lt_succ_iff_lt_or_eq.mp hi with hi | rfl
      · exact ih heq i hi hb
      · split at h
        · next hn => simp [← hc, hn] at hb
        · next d _ =>
          rcases pmRuntimeResumeAndGet_cases (wake i) d u with ⟨e, he⟩ | ⟨hf, _⟩
          · simp [he] at h
          · exact hf

/-- A change to the safe rate, with a fresh set of references in hand, leaves none behind. -/
theorem changeRate_quiet {freq : ℕ} (hf : freq ≤ rocketSafeRate) {s t : State n}
    (hs : Quiet s) (hw : t.wiring = s.wiring) (hr : t.df.refsHeld = s.df.refsHeld)
    (hh : t.held = fun d => s.held d + boundBelow s n d) :
    Quiet (changeRate .ok freq t).2 := by
  have hlt : ¬ rocketSafeRate < freq := by omega
  have hrt := hr.trans hs.refsHeld
  simp only [changeRate, clkSetRate, settleRefs_eq, State.setReqRate, hlt, hrt, if_false,
    decide_false, Bool.false_eq_true]
  refine ⟨hf, rfl, fun e => ?_⟩
  have hb : boundBelow t n e = boundBelow s n e := boundBelow_congr hw n e
  change t.held e - (boundBelow t n e : ℤ) - ((0 : ℕ) : ℤ) = 0
  rw [hb, hh]
  have := hs.held e
  dsimp only
  omega

/-- From a quiet state a target call that does not raise leads to a quiet state. -/
theorem rocketDevfreqTarget_quiet {env : TargetEnv n} {opp : Except Errno ℕ} {s : State n}
    (ha : (Op.target env opp).Admissible s) (hclk : env.clk = .ok) (hs : Quiet s)
    (hr : ¬ Raises env opp s) : Quiet (rocketDevfreqTarget env opp s).2 := by
  unfold rocketDevfreqTarget
  split
  · exact hs
  · next freq =>
    rcases targetLocked_cases env freq s with h | ⟨hp, ⟨e, t, hh, h⟩ | ⟨t, hh, h⟩⟩
    · rw [h]
      exact hs
    · -- some core did not wake up, and those that did were let go again
      rw [h]
      have hl := holdUpTo_lowers ha.1 n s
      rw [show holdUpTo env.wake n s = (.error e, t) from hh] at hl
      have hf := holdAll_error hh
      refine ⟨?_, hf.refsHeld.trans hs.refsHeld, fun e => ?_⟩
      · rcases hl.clock with hc | hc
        · rw [hc]
          exact hs.clock
        · exact hc.le
      · rw [hf.held]
        exact hs.held e
    · rw [h, hclk]
      obtain ⟨hl, hheld⟩ := holdAll_ok hh
      refine changeRate_quiet (not_lt.mp fun hlt => ?_) hs hl.wiring hl.refsHeld hheld
      exact hr ⟨freq, rfl, hlt, hp, holdUpTo_ok_fail hh⟩

theorem Shut.congr {s t : State n} (hs : Shut s) (hw : t.wiring = s.wiring) : Shut t := by
  have hnb : t.nb = s.nb := congrArg Wiring.nb hw
  exact hs.mono (.inl (congrArg Wiring.core hw)) (congrArg Wiring.isUnsafe hw)
    fun i h => hnb ▸ h

/-- What holds at each point of a removal no raise has raced with. -/
def RemovalInv (core : CorePtr) (d : Fin n) (x : Removal n) : Prop :=
  match x.pc with
  | .entered => Inv x.s ∧ x.s.rdev = some core.rdev ∧ x.s.cores core.idx = some d ∧
      x.down = false
  | .lowered => Quiet x.s ∧ x.s.wiring.Sound ∧ x.s.rdev = some core.rdev ∧
      x.s.cores core.idx = some d
  | .unregistered i => Quiet x.s ∧ (x.s.df.isUnsafe = false →
      i < n ∧ ∀ j < rocketDfMaxNb, (x.s.nb j).armed = true → j < n)
  | .removalFailed => Quiet x.s
  | _ => Quiet x.s ∧ Shut x.s

theorem Begins.inv {core : CorePtr} {d : Fin n} {x : Removal n} (h : Begins core d x) :
    RemovalInv core d x := by
  obtain ⟨hr, hpc, hdown, hdev, hf⟩ := h
  simp only [RemovalInv, hpc]
  exact ⟨hr.inv, hdev, findCoreForDev_some hf, hdown⟩

theorem target_removalInv {core : CorePtr} {d : Fin n} {x : Removal n} {env : TargetEnv n}
    {opp : Except Errno ℕ} (ha : (Op.target env opp).Admissible x.s) (hclk : env.clk = .ok)
    (hx : RemovalInv core d x) (hun : Unraced x (.target env opp)) :
    RemovalInv core d { x with s := (rocketDevfreqTarget env opp x.s).2 } := by
  have hw := rocketDevfreqTarget_wiring env opp x.s
  have hrdev := congrArg Wiring.rdev hw
  have hcores := congrFun (congrArg Wiring.cores hw) core.idx
  have hflag := congrArg Wiring.isUnsafe hw
  have hnb := congrArg Wiring.nb hw
  change (rocketDevfreqTarget env opp x.s).2.rdev = x.s.rdev at hrdev
  change (rocketDevfreqTarget env opp x.s).2.cores core.idx = x.s.cores core.idx at hcores
  change (rocketDevfreqTarget env opp x.s).2.df.isUnsafe = x.s.df.isUnsafe at hflag
  change (rocketDevfreqTarget env opp x.s).2.nb = x.s.nb at hnb
  have hquiet (hq : Quiet x.s) (h : ¬ Raises env opp x.s) :=
    rocketDevfreqTarget_quiet ha hclk hq h
  -- a shut gate refuses whatever would raise
  have hshut (h : Quiet x.s ∧ Shut x.s) : Quiet (rocketDevfreqTarget env opp x.s).2 ∧
      Shut (rocketDevfreqTarget env opp x.s).2 := by
    refine ⟨hquiet h.1 fun ⟨freq, _, hf, hp, _⟩ => h.2.not_passes hf hp, h.2.congr hw⟩
  -- within the window the condition speaks, after it the gate
  cases hpc : x.pc <;> simp only [RemovalInv, Unraced, RemovePc.inWindow, hpc] at hx hun ⊢
  case entered =>
    obtain ⟨h1, h2⟩ := rocketDevfreqTarget_inv ha hx.1.safe hx.1.refs
    exact ⟨⟨h1, h2⟩, hrdev.trans hx.2.1, hcores.trans hx.2.2.1, hx.2.2.2⟩
  case lowered =>
    exact ⟨hquiet hx.1 (hun trivial), hw ▸ hx.2.1, hrdev.trans hx.2.2.1, hcores.trans hx.2.2.2⟩
  case unregistered i =>
    rw [hflag, hnb]
    exact ⟨hquiet hx.1 (hun trivial), hx.2⟩
  case removalFailed => exact hquiet hx (hun trivial)
  all_goals exact hshut hx

theorem devPmGenpdRemoveNotifier_quiet (reply : Option Errno) (d : Fin n) {s : State n}
    (hs : Quiet s) : Quiet (devPmGenpdRemoveNotifier reply d s).2 ∧
      (devPmGenpdRemoveNotifier reply d s).2.df = s.df ∧
      (devPmGenpdRemoveNotifier reply d s).2.nb = s.nb := by
  rcases devPmGenpdRemoveNotifier_cases reply d s with ⟨e, h⟩ | ⟨k, h⟩
  · rw [h]
    exact ⟨hs, rfl, rfl⟩
  · rw [h]
    exact ⟨⟨hs.clock, hs.refsHeld, hs.held⟩, rfl, rfl⟩

theorem setNb_quiet {s : State n} (hs : Quiet s) (i : ℕ) (b : RocketDfNb) :
    Quiet (s.setNb i b) :=
  ⟨hs.clock, hs.refsHeld, hs.held⟩

theorem setNb_armed {s : State n} {i : ℕ} {b : RocketDfNb}
    (hb : b.armed = true → (s.nb i).armed = true) (j : ℕ) :
    ((s.setNb i b).nb j).armed = true → (s.nb j).armed = true := by
  by_cases hji : j = i
  · subst hji
    simpa [State.setNb] using hb
  · simp [State.setNb, Function.update_of_ne hji]

/-- The locked section of the removal gives up the boost and the references. -/
theorem lower_removalInv {env : RemoveEnv n} (hclk : env.clk = .ok) {s : State n}
    (hs : Inv s) : Quiet (coreRemovedLocked env.clk s) ∧
      (coreRemovedLocked env.clk s).wiring = s.wiring := by
  obtain ⟨h1, h2, h3, h4⟩ := coreRemovedLocked_inv (show SafeExact env.clk by rw [hclk]; rfl) hs
  refine ⟨⟨h3, h4, fun e => ?_⟩, h2⟩
  rw [h1.refs.held e, h4]
  rfl

/-- Unregistering succeeds, fails, or finds nothing armed for the core. -/
theorem unregister_removalInv (env : RemoveEnv n) {core : CorePtr} {d : Fin n} {x : Removal n}
    (hpc : x.pc = .lowered) (hx : RemovalInv core d x) :
    RemovalInv core d (x.next env core d) := by
  simp only [RemovalInv, hpc] at hx
  obtain ⟨hq, hsound, hr, hd⟩ := hx
  have hi : core.idx < n := hsound.slot_lt hd
  simp only [Removal.next, hpc]
  cases hf : findArmed core x.s with
  | none =>
    refine ⟨hq, ?_⟩
    change Shut x.s
    by_cases hu : x.s.df.isUnsafe = true
    · exact .inr (.inl hu)
    · have hu' : x.s.df.isUnsafe = false := by simpa using hu
      refine .inr (.inr (armedCount_lt hi (fun h4 => ?_) (hsound.armed_lt hu')))
      by_contra hna
      have ha : (x.s.nb core.idx).armed = true := by simpa using hna
      obtain ⟨a, _, hr', hp, _⟩ := hsound.armed hu' h4 ha
      obtain rfl : core.rdev = a := Option.some.inj (hr.symm.trans hr')
      exact hna (findArmed_none hf h4 hp)
  | some i =>
    obtain ⟨hq', hdf, hnb⟩ := devPmGenpdRemoveNotifier_quiet env.notifier d hq
    dsimp only
    split
    · next e t heq =>
      rw [heq] at hq'
      exact hq'
    · next t heq =>
      rw [heq] at hq' hdf hnb
      refine ⟨hq', fun hu => ?_⟩
      change t.df.isUnsafe = false at hu
      rw [hdf] at hu
      change i < n ∧ ∀ j < rocketDfMaxNb, (t.nb j).armed = true → j < n
      rw [hnb]
      exact ⟨findArmed_slot hsound hu hf ▸ hi, hsound.armed_lt hu⟩

/-- One round over the blocks that were left armed. -/
theorem sweep_removalInv (env : RemoveEnv n) {core : CorePtr} {d : Fin n} {x : Removal n}
    {i : ℕ} (hpc : x.pc = .sweeping i) (hx : RemovalInv core d x) :
    RemovalInv core d (x.next env core d) := by
  simp only [RemovalInv, hpc] at hx
  have hmove {t : State n} (hq : Quiet t) (hdf : t.df = x.s.df) (hnb : t.nb = x.s.nb) :
      Quiet t ∧ Shut t :=
    ⟨hq, hx.2.mono (.inl (congrArg RocketDf.core hdf)) (congrArg RocketDf.isUnsafe hdf)
      fun _ h => hnb ▸ h⟩
  simp only [Removal.next, hpc]
  split_ifs
  · rcases (x.s.nb i).armed with _ | _
    · exact hx
    · rcases (x.s.nb i).core.bind (x.s.coreDev (env.fini.stale i)) with _ | e
      · exact hx
      · obtain ⟨hq, hdf, hnb⟩ := devPmGenpdRemoveNotifier_quiet (env.fini.notifier i) e hx.1
        dsimp only
        generalize devPmGenpdRemoveNotifier (env.fini.notifier i) e x.s = r at hq hdf hnb ⊢
        rcases r with ⟨_ | _, t⟩
        · exact hmove hq hdf hnb
        · exact hmove hq hdf hnb
  · exact hx

theorem next_removalInv {env : RemoveEnv n} (hclk : env.clk = .ok) (hfini : env.fini.clk = .ok)
    {core : CorePtr} {d : Fin n} {x : Removal n} (hx : RemovalInv core d x) :
    RemovalInv core d (x.next env core d) := by
  have hunreg (h : x.pc = .lowered) := unregister_removalInv env h hx
  have hsweep {i : ℕ} (h : x.pc = .sweeping i) := sweep_removalInv env h hx
  cases h : x.pc <;> simp only [RemovalInv, Removal.next, Removal.at, h] at hx ⊢
  case entered =>
    obtain ⟨h1, h2⟩ := lower_removalInv hclk hx.1
    have hcores := congrFun (congrArg Wiring.cores h2) core.idx
    exact ⟨h1, h2 ▸ hx.1.safe.sound, (congrArg Wiring.rdev h2).trans hx.2.1, hcores.trans hx.2.2.1⟩
  case lowered =>
    simpa only [RemovalInv, Removal.next, Removal.at, h] using hunreg h
  case unregistered i =>
    refine ⟨setNb_quiet hx.1 _ _, ?_⟩
    by_cases hu : x.s.df.isUnsafe = true
    · exact .inr (.inl hu)
    · -- the slot counted as armed until now, and only slots below `n` do
      obtain ⟨hi, hb⟩ := hx.2 (by simpa using hu)
      refine .inr (.inr (armedCount_lt hi (fun _ => by simp [State.setNb]) fun j hj hja => ?_))
      exact hb j hj (setNb_armed (by simp) j hja)
  case disarmed i =>
    exact ⟨setNb_quiet hx.1 _ _, hx.2.mono (.inl rfl) rfl (setNb_armed id)⟩
  case removalFailed => exact ⟨⟨hx.clock, hx.refsHeld, hx.held⟩, .inr (.inl rfl)⟩
  case coreRemoved =>
    split_ifs
    · exact ⟨⟨hx.1.clock, hx.1.refsHeld, hx.1.held⟩, hx.2.mono (.inl rfl) rfl fun _ => id⟩
    · exact hx
  case closing =>
    rw [finiLocked_eq (by rw [hfini]; rfl)]
    have hq := hx.1
    refine ⟨⟨?_, rfl, fun e => ?_⟩, .inl rfl⟩
    · have := hq.clock
      dsimp only
      split_ifs <;> omega
    · simp [State.dropBoost, hq.refsHeld, hq.held e]
  case sweeping i =>
    simpa only [RemovalInv, Removal.next, Removal.at, h] using hsweep h
  case swept i =>
    exact ⟨setNb_quiet hx.1 _ _, hx.2.mono (.inl rfl) rfl (setNb_armed (by simp))⟩
  case sweptDisarmed i =>
    exact ⟨setNb_quiet hx.1 _ _, hx.2.mono (.inl rfl) rfl (setNb_armed id)⟩
  case finished =>
    exact ⟨⟨hx.1.clock, hx.1.refsHeld, hx.1.held⟩, hx.2.mono (.inl rfl) rfl fun _ => id⟩
  case devCleared =>
    split_ifs
    · exact ⟨⟨hx.1.clock, hx.1.refsHeld, hx.1.held⟩, hx.2.mono (.inl rfl) rfl fun _ => id⟩
    · exact ⟨⟨hx.1.clock, hx.1.refsHeld, hx.1.held⟩, hx.2.mono (.inl rfl) rfl fun _ => id⟩
  case done => exact hx

/-- In every run in which no raise falls into the window, the clock is safe once the core's
notifier is gone, and no reference on the core is left when its slot is cleared. -/
theorem removal_safe_of_unraced {env : RemoveEnv n} (hclk : env.clk = .ok)
    (hfini : env.fini.clk = .ok) {core : CorePtr} {d : Fin n} {x : Removal n}
    (h : Reachable (Begins core d) (restrict (RemovalStep env core d) Unraced) x) :
    RemovedSafely d x := by
  have hinv : RemovalInv core d x := by
    refine h.invariant (fun _ => Begins.inv) fun x op y hx ⟨hstep, hun⟩ => ?_
    cases op with
    | remove => exact hstep ▸ next_removalInv hclk hfini hx
    | target tenv opp =>
      obtain ⟨ha, hc, rfl⟩ := hstep
      exact target_removalInv ha hc hx hun
  unfold RemovalInv at hinv
  cases hpc : x.pc <;> simp only [hpc] at hinv <;>
    refine ⟨fun hdown => ?_, fun hcl => ?_⟩
  case entered.refine_1 => simp [hinv.2.2.2] at hdown
  all_goals first
    | exact hinv.1.clock
    | exact hinv.clock
    | exact hinv.1.held d
    | simp [RemovePc.cleared, hpc] at hcl

def RemoveEnv.smooth : RemoveEnv n where
  clk := .ok
  notifier := none
  fini := ⟨.ok, false, fun _ => none, fun _ => none⟩

def removeNext (x : Removal 2) : Removal 2 := x.next .smooth ⟨0, 1⟩ (Fin.last 1)

/-- The second of two cores is about to be removed. -/
def beginRemove : Removal 2 := ⟨.entered, twoCores 0, false⟩

theorem beginRemove_begins : Begins ⟨0, 1⟩ 1 beginRemove :=
  ⟨twoCores_reaches 0, rfl, rfl, rfl, by decide⟩

theorem removal_unraced_done :
    (removeNext^[7] beginRemove).pc = .done ∧ RemovedSafely 1 (removeNext^[7] beginRemove) := by
  have h : Reachable (Begins ⟨0, 1⟩ 1) (restrict (RemovalStep .smooth ⟨0, 1⟩ 1) Unraced)
      (removeNext^[7] beginRemove) :=
    (Reachable.start beginRemove_begins).iterate (e := RemovalOp.remove) (fun _ => ⟨rfl, trivial⟩) 7
  exact ⟨by decide, removal_safe_of_unraced rfl rfl h⟩

/-- The clock is lowered, and raised again before the notifier is unregistered. -/
def reboosted : Removal 2 :=
  let x := removeNext beginRemove
  { x with s := (rocketDevfreqTarget .smooth (.ok 300000000) x.s).2 }

theorem not_removal_safe :
    Reachable (Begins ⟨0, 1⟩ 1) (RemovalStep .smooth ⟨0, 1⟩ 1) (removeNext^[6] reboosted) ∧
      ¬ RemovedSafely 1 (removeNext^[6] reboosted) ∧
      (removeNext^[6] reboosted).pc = .done ∧ (removeNext^[6] reboosted).s.held 1 = 1 := by
  have hlow : Reachable (Begins ⟨0, 1⟩ 1) (RemovalStep .smooth ⟨0, 1⟩ 1)
      (removeNext beginRemove) := .step (e := .remove) (.start beginRemove_begins) rfl
  have hboost : Reachable (Begins ⟨0, 1⟩ 1) (RemovalStep .smooth ⟨0, 1⟩ 1) reboosted :=
    .step (e := .target .smooth (.ok 300000000)) hlow
      ⟨Op.target_smooth_admissible (by decide), rfl, rfl⟩
  have hnext (x : Removal 2) : RemovalStep .smooth ⟨0, 1⟩ 1 x .remove (removeNext x) := rfl
  refine ⟨hboost.iterate hnext 6, fun h => ?_, by decide, by decide⟩
  exact absurd (h.1 (by decide)) (by decide)

end RocketNpu.Devfreq
