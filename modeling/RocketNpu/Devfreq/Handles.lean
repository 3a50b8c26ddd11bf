import RocketNpu.Devfreq.Outcome
import RocketNpu.Devfreq.Owner

namespace RocketNpu.Devfreq
open Runs

variable {n : ℕ}

/-- The component with what it holds of other subsystems. A regulator handle is named by the device
it was got for, a devfreq device and its cooling device by the device they belong to. -/
structure Handles (n : ℕ) where
  calls : Calls n
  /-- `rocket_df.reg`. -/
  reg : Option (Fin n)
  /-- `rocket_df.cdev`. -/
  cdev : Option (Fin n)
  /-- Regulator handles that `devm` holds for a device. -/
  regulators : Fin n → ℕ
  /-- devfreq devices that `devm` holds for a device. -/
  devfreqs : Fin n → ℕ
  /-- Cooling devices registered on the devfreq device of a device. -/
  cooling : Fin n → ℕ
  /-- The OPP table of a device. -/
  opps : Fin n → List ℕ
  /-- The driver core has still to release what `devm` holds for a device without a driver. -/
  leaving : Fin n → Bool

/-- `rocket_devfreq_init` finds the clock at the safe rate. -/
def baselineSafe (env : InitEnv n) (d : Fin n) (s : State n) : Bool :=
  match pmRuntimeResumeAndGet env.wake d s with
  | (.error _, _) => false
  | (.ok (), s) => s.clock = rocketSafeRate

/-- `rocket_devfreq_init`; `adds` says which of the later OPPs could be added. -/
def Handles.init (env : InitEnv n) (adds : ℕ → Bool) (d : Fin n) (h : Handles n) : Handles n :=
  if h.calls.s.df.core.isSome ∨ baselineSafe env d h.calls.s = false then h
  else
    let h := { h with
      reg := if env.reg then some d else none
      regulators := Function.update h.regulators d (h.regulators d + env.reg.toNat)
      opps := Function.update h.opps d [] }
    if env.opp.isSome then h
    else
      let h := { h with
        opps := Function.update h.opps d (rocketSafeRate :: steps.filter adds) }
      if env.addDevice.isSome then h
      else { h with
        devfreqs := Function.update h.devfreqs d (h.devfreqs d + 1)
        cdev := if env.cdev then some d else none
        cooling := Function.update h.cooling d (h.cooling d + env.cdev.toNat) }

/-- `rocket_devfreq_fini`: the cooling device is unregistered by hand. -/
def Handles.fini (core : CorePtr) (h : Handles n) : Handles n :=
  if rocketDevfreqOwns core h.calls.s ∧ h.calls.s.df.core = some core then
    match h.cdev with
    | some e => { h with
        cdev := none
        cooling := Function.update h.cooling e (h.cooling e - 1) }
    | none => h
  else h

/-- What a call does to the handles. -/
def Handles.effect (op : CallOp n) (adds : ℕ → Bool) (h : Handles n) : Handles n :=
  match op, h.calls.phase with
  | .init env, .coreInited core d => if core.idx = 0 then h.init env adds d else h
  | .fini _, .coreRemoved core _ => h.fini core
  | .unbind, .finished _ d => { h with leaving := Function.update h.leaving d true }
  | _, _ => h

inductive HandleOp (n : ℕ) where
  | call (op : CallOp n) (adds : ℕ → Bool)
  | devres (d : Fin n)

/-- `devres_release_all` takes the devfreq device down before the regulator handle. -/
def HandleOp.run (op : HandleOp n) (h : Handles n) : Option (Handles n) :=
  match op with
  | .call op adds => (op.run h.calls).map fun x => { h.effect op adds with calls := x }
  | .devres d =>
    if h.leaving d then some { h with
      regulators := Function.update h.regulators d 0
      devfreqs := Function.update h.devfreqs d 0
      leaving := Function.update h.leaving d false }
    else none

/-- A device is probed when nothing of its last driver is left. A target call comes from the
devfreq device of some device, for a rate that `devfreq_recommended_opp` found in its table. -/
def HandleOp.Admissible : HandleOp n → Handles n → Prop
  | .call op _, h => op.Admissible h.calls ∧
      (∀ env d, op = .probe env d → h.leaving d = false) ∧
      ∀ env opp, op = .target env opp →
        ∃ d, 0 < h.devfreqs d ∧ ∀ freq, opp = .ok freq → freq ∈ h.opps d
  | .devres _, _ => True

def HandleStep (h : Handles n) (op : HandleOp n) (k : Handles n) : Prop :=
  op.Admissible h ∧ op.run h = some k

def HandleStart (h : Handles n) : Prop :=
  ∃ x, CallStart x ∧
    h = ⟨x, none, none, fun _ => 0, fun _ => 0, fun _ => 0, fun _ => [], fun _ => false⟩

/-- Between two calls: what `rocket_df` points to is there, and nothing is there twice. -/
structure Handles.Ok (h : Handles n) : Prop where
  calls : CallInv h.calls
  reg : h.reg.isSome = h.calls.s.df.reg
  cdev : h.cdev.isSome = h.calls.s.df.cdev
  owner : ∀ p d, h.calls.s.df.core = some p → h.calls.s.cores p.idx = some d →
    (∀ e, h.reg = some e → e = d ∧ h.regulators d = 1) ∧ (∀ e, h.cdev = some e → e = d) ∧
      h.devfreqs d = 1 ∧ rocketSafeRate ∈ h.opps d
  unowned : h.calls.s.df.core = none → h.cdev = none
  cooling : ∀ d, h.cooling d = if h.cdev = some d then 1 else 0
  new : ∀ d, h.leaving d = false →
    (∀ i, h.calls.s.cores i ≠ some d) ∨ (∃ core, h.calls.phase = .coreInited core d) →
      h.regulators d = 0 ∧ h.devfreqs d = 0
  leaving : ∀ d, h.leaving d = true → ∀ i, h.calls.s.cores i ≠ some d
  once : ∀ d, h.regulators d ≤ 1 ∧ h.devfreqs d ≤ 1
  opps : ∀ d, (h.opps d).Sublist oppTable

variable {h k : Handles n} {x : Calls n}

theorem Handles.effect_keeps {op : CallOp n} (hop : op.keeps = true) (adds : ℕ → Bool)
    (h : Handles n) : h.effect op adds = h := by
  cases op with
  | probe | init | fini | unbind => cases hop
  | _ => rfl

/-- What `rocket_devfreq_init` does to the owner: nothing, or it has taken a regulator and registers
as far as it gets. -/
theorem rocketDevfreqInit_owner (env : InitEnv n) (core : CorePtr) (d : Fin n) (s : State n) :
    (s.df.core.isSome = true ∨ baselineSafe env d s = false) ∧
        SameOwner s (rocketDevfreqInit env core d s) ∨
      s.df.core = none ∧ baselineSafe env d s = true ∧
        (rocketDevfreqInit env core d s).df.reg = env.reg ∧
        ((env.opp.isSome = true ∨ env.addDevice.isSome = true) ∧
            (rocketDevfreqInit env core d s).df.core = none ∧
            (rocketDevfreqInit env core d s).df.cdev = s.df.cdev ∨
          env.opp = none ∧ env.addDevice = none ∧
            (rocketDevfreqInit env core d s).df.core = some core ∧
            (rocketDevfreqInit env core d s).df.cdev = env.cdev) := by
  have hpow := env.wake.power_owner d s
  unfold rocketDevfreqInit
  split_ifs with hc
  · exact .inl ⟨.inl hc, .refl s⟩
  have hnone : s.df.core = none := by simpa using hc
  rcases pmRuntimeResumeAndGet_cases env.wake d s with ⟨e, h⟩ | ⟨-, h⟩
  · rw [h]
    exact .inl ⟨.inr (by simp [baselineSafe, h]), hpow⟩
  rw [h]
  simp only [pmRuntimePut_addHeld]
  split_ifs with hclock
  · exact .inl ⟨.inr (by simpa [baselineSafe, h, State.addHeld] using hclock), hpow⟩
  have hbase : baselineSafe env d s = true := by
    simpa [baselineSafe, h, State.addHeld] using hclock
  refine .inr ⟨hnone, hbase, ?_⟩
  unfold initAtSafeRate
  cases hopp : env.opp with
  | some e => exact ⟨rfl, .inl ⟨.inl rfl, hpow.core.trans hnone, hpow.cdev⟩⟩
  | none =>
    cases hadd : env.addDevice with
    | some e => exact ⟨rfl, .inl ⟨.inr rfl, rfl, hpow.cdev⟩⟩
    | none =>
      simp only [Option.isSome_none, Bool.false_eq_true, if_false]
      have harm (t : State n) := rocketDfArmNotifiers_owner env.notifier core.rdev t
      exact ⟨(harm _).reg, .inr ⟨trivial, trivial, (harm _).core, trivial⟩⟩

/-- `rocket_devfreq_fini` of the owner ends its ownership; of another core it does nothing. -/
theorem rocketDevfreqFini_owner (env : FiniEnv n) (core : CorePtr) (s : State n) :
    ¬ (rocketDevfreqOwns core s ∧ s.df.core = some core) ∧ rocketDevfreqFini env core s = s ∨
      (rocketDevfreqOwns core s ∧ s.df.core = some core) ∧
        (rocketDevfreqFini env core s).df.core = none ∧
        (rocketDevfreqFini env core s).df.reg = s.df.reg ∧
        (rocketDevfreqFini env core s).df.cdev = false := by
  unfold rocketDevfreqFini
  split_ifs with ho
  · obtain ⟨c, heq⟩ := finiLocked_cases env.clk env.suspended { s with df.cdev := false }
    obtain hdis := rocketDfDisarmNotifiers_owner env.notifier env.stale
      (finiLocked env.clk env.suspended { s with df.cdev := false })
    refine .inr ⟨ho, ?_, ?_, ?_⟩
    · rw [hdis.core, heq]
    · rw [hdis.reg, heq]
      rfl
    · rw [hdis.cdev, heq]
      rfl
  · exact .inl ⟨ho, rfl⟩

namespace Handles.Ok

/-- A call that leaves slots and owner alone, and starts no binding. -/
theorem same (hk : h.Ok) (hx : CallInv x) (ho : SameOwner h.calls.s x.s)
    (hc : x.s.cores = h.calls.s.cores)
    (hp : ∀ core d, x.phase = .coreInited core d → h.calls.phase = .coreInited core d) :
    ({ h with calls := x } : Handles n).Ok where
  calls := hx
  reg := hk.reg.trans ho.reg.symm
  cdev := hk.cdev.trans ho.cdev.symm
  owner p d hown hd := hk.owner p d (ho.core.symm.trans hown) (hc ▸ hd)
  unowned hown := hk.unowned (ho.core.symm.trans hown)
  cooling := hk.cooling
  new d hl hd :=
    hk.new d hl (hd.imp (fun hfree => hc ▸ hfree) fun ⟨core, hphase⟩ => ⟨core, hp core d hphase⟩)
  leaving d hl i := hc ▸ hk.leaving d hl i
  once := hk.once
  opps := hk.opps

theorem probe (hk : h.Ok) {env : ProbeEnv n} {d : Fin n} (hd : ∀ i, h.calls.s.cores i ≠ some d)
    (hl : h.leaving d = false) :
    ({ h with calls := beginProbe env d h.calls.s } : Handles n).Ok := by
  have hb := hk.calls.balanced
  have ho := beginProbe_owner env d h.calls.s
  have hx := beginProbe_inv env hb hd
  rcases beginProbe_cases env hb hd with ⟨hp, hc⟩ | ⟨core, hp, hfree, hc⟩
  · exact hk.same hx ho hc fun core' d' hnew => by simp [hp] at hnew
  -- the owner sits in a slot that was not free
  have hslot {p : CorePtr} (hown : (beginProbe env d h.calls.s).s.df.core = some p) :
      (beginProbe env d h.calls.s).s.cores p.idx = h.calls.s.cores p.idx := by
    obtain ⟨-, h0, hsome⟩ := hb.sound.owner (ho.core.symm.trans hown)
    have hne : p.idx ≠ core.idx := by
      intro he
      rw [← he, h0] at hfree
      simp [hfree] at hsome
    rw [hc, Function.update_of_ne hne]
  have hbound {e : Fin n} {i : ℕ} (he : h.calls.s.cores i = some e) :
      (beginProbe env d h.calls.s).s.cores i = some e := by
    have hne : i ≠ core.idx := fun hi => by simp [← hi, he] at hfree
    rw [hc, Function.update_of_ne hne, he]
  exact {
    calls := hx
    reg := hk.reg.trans ho.reg.symm
    cdev := hk.cdev.trans ho.cdev.symm
    owner := fun p e hown he =>
      hk.owner p e (ho.core.symm.trans hown) ((hslot hown).symm.trans he)
    unowned := fun hown => hk.unowned (ho.core.symm.trans hown)
    cooling := hk.cooling
    new := by
      intro e hle he
      refine hk.new e hle (.inl ?_)
      rcases he with he | ⟨core', he⟩
      · exact fun i hi => he i (hbound hi)
      · have hed : d = e := (Phase.coreInited.inj (hp.symm.trans he)).2
        exact hed ▸ hd
    leaving := by
      intro e hle i hi
      rw [show ({ h with calls := beginProbe env d h.calls.s } : Handles n).calls.s.cores = _
        from hc, Function.update_apply] at hi
      split_ifs at hi
      · obtain rfl := Option.some.inj hi
        simp [hl] at hle
      · exact hk.leaving e hle i hi
    once := hk.once
    opps := hk.opps }

/-- The core being bound holds nothing yet. -/
theorem fresh (hk : h.Ok) {core : CorePtr} {d : Fin n}
    (hp : h.calls.phase = .coreInited core d) :
    Bound core d h.calls.s ∧ h.leaving d = false ∧ h.regulators d = 0 ∧ h.devfreqs d = 0 := by
  have hbound : Bound core d h.calls.s := by
    have hphase := hk.calls.phase
    rwa [hp] at hphase
  have hl : h.leaving d = false := by
    by_contra hl
    exact hk.leaving d (by simpa using hl) core.idx hbound.slot
  exact ⟨hbound, hl, hk.new d hl (.inr ⟨core, hp⟩)⟩

/-- `rocket_devfreq_init` has got a regulator and gives up on the rest. -/
theorem givesUp (hk : h.Ok) {d : Fin n} (hregs : h.regulators d = 0)
    (hnone : h.calls.s.df.core = none) (hbound : ∃ i, h.calls.s.cores i = some d) (hx : CallInv x)
    (hcores : x.s.cores = h.calls.s.cores) (hphase : x.phase = .idle) {reg : Bool}
    (hreg : x.s.df.reg = reg) (hcore : x.s.df.core = none)
    (hcdev : x.s.df.cdev = h.calls.s.df.cdev) {opps : List ℕ} (hopps : opps.Sublist oppTable) :
    ({ h with
      calls := x
      reg := if reg then some d else none
      regulators := Function.update h.regulators d (h.regulators d + reg.toNat)
      opps := Function.update h.opps d opps } : Handles n).Ok where
  calls := hx
  reg := by cases reg <;> simp [hreg]
  cdev := hk.cdev.trans hcdev.symm
  owner p e hown := by simp [hcore] at hown
  unowned _ := hk.unowned hnone
  cooling := hk.cooling
  new e hle he := by
    have hfree : ∀ i, h.calls.s.cores i ≠ some e := by
      rcases he with he | ⟨core, he⟩
      · exact hcores ▸ he
      · simp [hphase] at he
    have hed : e ≠ d := by
      rintro rfl
      obtain ⟨i, hi⟩ := hbound
      exact hfree i hi
    simpa [Function.update_of_ne hed] using hk.new e hle (.inl hfree)
  leaving e hle i := hcores ▸ hk.leaving e hle i
  once e := by
    by_cases hed : e = d
    · subst hed
      refine ⟨?_, (hk.once e).2⟩
      cases reg <;> simp [hregs]
    · simpa [Function.update_of_ne hed] using hk.once e
  opps e := by
    by_cases hed : e = d
    · subst hed
      simpa using hopps
    · simpa [Function.update_of_ne hed] using hk.opps e

/-- `rocket_devfreq_init` gets to its end. -/
theorem registers (hk : h.Ok) {core : CorePtr} {d : Fin n} (hregs : h.regulators d = 0)
    (hdfs : h.devfreqs d = 0) (hnone : h.calls.s.df.core = none)
    (hslot : h.calls.s.cores core.idx = some d) (hx : CallInv x)
    (hcores : x.s.cores = h.calls.s.cores) (hphase : x.phase = .idle) {reg cdev : Bool}
    (hreg : x.s.df.reg = reg) (hcore : x.s.df.core = some core) (hcdev : x.s.df.cdev = cdev)
    {opps : List ℕ} (hopps : opps.Sublist oppTable) (hsafe : rocketSafeRate ∈ opps) :
    ({ h with
      calls := x
      reg := if reg then some d else none
      cdev := if cdev then some d else none
      regulators := Function.update h.regulators d (h.regulators d + reg.toNat)
      devfreqs := Function.update h.devfreqs d (h.devfreqs d + 1)
      cooling := Function.update h.cooling d (h.cooling d + cdev.toNat)
      opps := Function.update h.opps d opps } : Handles n).Ok where
  calls := hx
  reg := by cases reg <;> simp [hreg]
  cdev := by cases cdev <;> simp [hcdev]
  owner p e hown he := by
    obtain rfl : core = p := Option.some.inj (hcore.symm.trans hown)
    obtain rfl : d = e := Option.some.inj (hslot.symm.trans (hcores ▸ he))
    refine ⟨fun e he => ?_, fun e he => ?_, by simp [hdfs], by simpa using hsafe⟩
    · cases reg <;> simp_all
    · cases cdev <;> simp_all
  unowned hown := by simp [hcore] at hown
  cooling e := by
    have hcool : h.cooling e = 0 := by simp [hk.cooling e, hk.unowned hnone]
    by_cases hed : e = d
    · subst hed
      cases cdev <;> simp [hcool]
    · cases cdev <;> simp [Function.update_of_ne hed, hcool, Ne.symm hed]
  new e hle he := by
    have hfree : ∀ i, h.calls.s.cores i ≠ some e := by
      rcases he with he | ⟨core, he⟩
      · exact hcores ▸ he
      · simp [hphase] at he
    have hed : e ≠ d := fun hed => hfree core.idx (hed ▸ hslot)
    simpa [Function.update_of_ne hed] using hk.new e hle (.inl hfree)
  leaving e hle i := hcores ▸ hk.leaving e hle i
  once e := by
    by_cases hed : e = d
    · subst hed
      cases reg <;> simp [hregs, hdfs]
    · simpa [Function.update_of_ne hed] using hk.once e
  opps e := by
    by_cases hed : e = d
    · subst hed
      simpa using hopps
    · simpa [Function.update_of_ne hed] using hk.opps e

theorem init (hk : h.Ok) (env : InitEnv n) (adds : ℕ → Bool) {core : CorePtr} {d : Fin n}
    (hp : h.calls.phase = .coreInited core d) :
    ({ h.effect (.init env) adds with calls := ⟨endProbe env core d h.calls.s, .idle⟩ } :
      Handles n).Ok := by
  obtain ⟨hbound, hl, hregs, hdfs⟩ := hk.fresh hp
  have hx : CallInv ⟨endProbe env core d h.calls.s, .idle⟩ :=
    ⟨endProbe_balanced env hk.calls.balanced hbound, trivial⟩
  have hcores := endProbe_cores env core d h.calls.s
  have hsame (ho : SameOwner h.calls.s (endProbe env core d h.calls.s)) :=
    hk.same hx ho hcores fun _ _ hnew => by cases hnew
  have heffect : h.effect (.init env) adds = if core.idx = 0 then h.init env adds d else h := by
    simp [Handles.effect, hp]
  rw [heffect]
  split_ifs with h0
  · have hend : endProbe env core d h.calls.s = rocketDevfreqInit env core d h.calls.s := by
      simp [endProbe, h0]
    rw [hend] at hx hcores hsame ⊢
    rcases rocketDevfreqInit_owner env core d h.calls.s with
      ⟨hskip, ho⟩ | ⟨hnone, hbase, hreg, hrest⟩
    · rw [Handles.init, if_pos hskip]
      exact hsame ho
    · have hgo : ¬ (h.calls.s.df.core.isSome = true ∨ baselineSafe env d h.calls.s = false) := by
        simp [hnone, hbase]
      have hall : (rocketSafeRate :: steps.filter adds).Sublist oppTable :=
        List.filter_sublist.cons_cons _
      rw [Handles.init, if_neg hgo]
      rcases hrest with ⟨hfail, hcore, hcdev⟩ | ⟨hopp, hadd, hcore, hcdev⟩
      · cases hopp : env.opp with
        | some e =>
          simpa [hopp] using hk.givesUp hregs hnone ⟨_, hbound.slot⟩ hx hcores rfl hreg hcore hcdev
            (List.nil_sublist _)
        | none =>
          have hadd : env.addDevice.isSome = true := by simpa [hopp] using hfail
          simpa [hopp, hadd] using hk.givesUp hregs hnone ⟨_, hbound.slot⟩ hx hcores rfl hreg hcore
            hcdev hall
      · simpa [hopp, hadd] using hk.registers hregs hdfs hnone hbound.slot hx hcores rfl hreg hcore
          hcdev hall List.mem_cons_self
  · apply hsame
    unfold endProbe rocketDevfreqCoreAdded
    rw [if_neg h0]
    split_ifs
    · exact rocketDfArmNotifiers_owner _ _ _
    · exact .refl _

theorem fini (hk : h.Ok) (env : FiniEnv n) (adds : ℕ → Bool) {core : CorePtr} {d : Fin n}
    (hp : h.calls.phase = .coreRemoved core d) :
    ({ h.effect (.fini env) adds with
      calls := ⟨rocketDevfreqFini env core h.calls.s, .finished core d⟩ } : Handles n).Ok := by
  have hr : Removed core d h.calls.s := by
    have hphase := hk.calls.phase
    rwa [hp] at hphase
  obtain ⟨hbal, hrem, hfree⟩ := rocketDevfreqFini_balanced env hk.calls.balanced hr
  have hx : CallInv ⟨rocketDevfreqFini env core h.calls.s, .finished core d⟩ :=
    ⟨hbal, hrem, hfree⟩
  have hcores := rocketDevfreqFini_cores env core h.calls.s
  have heffect : h.effect (.fini env) adds = h.fini core := by simp [Handles.effect, hp]
  rw [heffect]
  rcases rocketDevfreqFini_owner env core h.calls.s with ⟨hown, hs⟩ | ⟨hown, hcore, hreg, hcdev⟩
  · rw [Handles.fini, if_neg hown, hs]
    rw [hs] at hx
    exact hk.same hx (.refl _) rfl fun _ _ hnew => by cases hnew
  · rw [Handles.fini, if_pos hown]
    have hnew {e : Fin n} (he : (∀ i, (rocketDevfreqFini env core h.calls.s).cores i ≠ some e) ∨
        ∃ core', Phase.finished core d = .coreInited core' e) :
        ∀ i, h.calls.s.cores i ≠ some e := by
      rcases he with he | ⟨core', he⟩
      · exact hcores ▸ he
      · cases he
    cases hc : h.cdev with
    | none =>
      exact {
        calls := hx
        reg := hk.reg.trans hreg.symm
        cdev := by simp [hc, hcdev]
        owner := fun p e hp => by simp [hcore] at hp
        unowned := fun _ => hc
        cooling := hk.cooling
        new := fun e hl he => hk.new e hl (.inl (hnew he))
        leaving := fun e hl i => hcores ▸ hk.leaving e hl i
        once := hk.once
        opps := hk.opps }
    | some c =>
      exact {
        calls := hx
        reg := hk.reg.trans hreg.symm
        cdev := by simp [hcdev]
        owner := fun p e hp => by simp [hcore] at hp
        unowned := fun _ => rfl
        cooling := fun e => by
          have hcool := hk.cooling e
          by_cases he : e = c
          · subst he
            simp [hcool, hc]
          · simpa [Function.update_of_ne he, hc, Ne.symm he] using hcool
        new := fun e hl he => hk.new e hl (.inl (hnew he))
        leaving := fun e hl i => hcores ▸ hk.leaving e hl i
        once := hk.once
        opps := hk.opps }

theorem unbind (hk : h.Ok) (adds : ℕ → Bool) {core : CorePtr} {d : Fin n}
    (hp : h.calls.phase = .finished core d) :
    ({ h.effect .unbind adds with calls := ⟨unbindSlot core.idx h.calls.s, .idle⟩ } :
      Handles n).Ok := by
  have hb := hk.calls.balanced
  obtain ⟨hr, ho⟩ : Removed core d h.calls.s ∧ (core.idx = 0 → h.calls.s.df.core = none) := by
    have hphase := hk.calls.phase
    rwa [hp] at hphase
  have hown := unbindSlot_owner core.idx h.calls.s
  have hother {j : ℕ} (hj : j ≠ core.idx) :
      (unbindSlot core.idx h.calls.s).cores j = h.calls.s.cores j :=
    unbindSlot_cores hb hr ho hj
  have hgone : (unbindSlot core.idx h.calls.s).cores core.idx = none := by
    unfold unbindSlot
    dsimp only
    split_ifs <;> simp [State.freeDevice, State.setDev]
  -- only the slot of `core` changes, and only it held `d`
  have hkept {j : ℕ} {e : Fin n} (he : (unbindSlot core.idx h.calls.s).cores j = some e) :
      h.calls.s.cores j = some e := by
    by_cases hj : j = core.idx
    · simp [hj, hgone] at he
    · exact (hother hj).symm.trans he
  have heffect : h.effect .unbind adds =
      { h with leaving := Function.update h.leaving d true } := by simp [Handles.effect, hp]
  rw [heffect]
  exact {
    calls := ⟨unbindSlot_balanced hb hr ho, trivial⟩
    reg := hk.reg.trans hown.reg.symm
    cdev := hk.cdev.trans hown.cdev.symm
    owner := fun p e hpe he => hk.owner p e (hown.core.symm.trans hpe) (hkept he)
    unowned := fun hn => hk.unowned (hown.core.symm.trans hn)
    cooling := hk.cooling
    new := by
      intro e hl he
      have hed : e ≠ d := by
        rintro rfl
        simp at hl
      refine hk.new e (by simpa [Function.update_of_ne hed] using hl) (.inl fun i hi => ?_)
      rcases he with he | ⟨core', he⟩
      · have hic : i ≠ core.idx := by
          rintro rfl
          exact hed (Option.some.inj (hi.symm.trans hr.slot))
        exact he i ((hother hic).trans hi)
      · cases he
    leaving := by
      intro e hl i hi
      by_cases hed : e = d
      · subst hed
        have hic : i = core.idx := hb.sound.slot_inj (hkept hi) hr.slot
        rw [hic] at hi
        exact absurd (hgone.symm.trans hi) (by simp)
      · exact hk.leaving e (by simpa [Function.update_of_ne hed] using hl) i (hkept hi)
    once := hk.once
    opps := hk.opps }

theorem devres (hk : h.Ok) {d : Fin n} (hd : h.leaving d = true) :
    ({ h with
      regulators := Function.update h.regulators d 0
      devfreqs := Function.update h.devfreqs d 0
      leaving := Function.update h.leaving d false } : Handles n).Ok := by
  have hfree := hk.leaving d hd
  exact {
    calls := hk.calls
    reg := hk.reg
    cdev := hk.cdev
    owner := by
      intro p e hp he
      have hed : e ≠ d := fun hed => hfree p.idx (hed ▸ he)
      simpa [Function.update_of_ne hed] using hk.owner p e hp he
    unowned := hk.unowned
    cooling := hk.cooling
    new := by
      intro e hl he
      by_cases hed : e = d
      · simp [hed]
      · simpa [Function.update_of_ne hed] using
          hk.new e (by simpa [Function.update_of_ne hed] using hl) he
    leaving := by
      intro e hl
      have hed : e ≠ d := by
        rintro rfl
        simp at hl
      exact hk.leaving e (by simpa [Function.update_of_ne hed] using hl)
    once := by
      intro e
      by_cases hed : e = d
      · simp [hed]
      · simpa [Function.update_of_ne hed] using hk.once e
    opps := hk.opps }

theorem step (hk : h.Ok) {op : HandleOp n} (hs : HandleStep h op k) : k.Ok := by
  obtain ⟨ha, hrun⟩ := hs
  cases op with
  | devres d =>
    simp only [HandleOp.run, Option.ite_none_right_eq_some, Option.some.injEq] at hrun
    obtain ⟨hl, rfl⟩ := hrun
    exact hk.devres hl
  | call op adds =>
    obtain ⟨hadm, hclean, -⟩ := ha
    obtain ⟨x, hx, rfl⟩ := Option.map_eq_some_iff.mp hrun
    have hstep : CallStep h.calls op x := ⟨hadm, hx⟩
    by_cases hop : op.keeps = true
    · obtain ⟨ho, hc, hp⟩ := CallOp.run_keeps hk.calls.balanced hop hx
      rw [effect_keeps hop]
      refine hk.same (hk.calls.step hstep) ho hc fun core d hnew => ?_
      rcases hp with hp | ⟨core', d', hp⟩
      · exact hp.symm.trans hnew
      · cases hp.symm.trans hnew
    · cases op <;> simp only [CallOp.keeps, not_true_eq_false] at hop
      case probe env d =>
        have hl := hclean env d rfl
        simp only [CallOp.run] at hx
        split at hx
        · cases hx
          exact hk.probe hadm hl
        · cases hx
      case init env =>
        simp only [CallOp.run] at hx
        split at hx
        · next core d heq =>
          cases hx
          exact hk.init env adds heq
        · cases hx
      case fini env =>
        simp only [CallOp.run] at hx
        split at hx
        · next core d heq =>
          cases hx
          exact hk.fini env adds heq
        · cases hx
      case unbind =>
        simp only [CallOp.run] at hx
        split at hx
        · next core d heq =>
          cases hx
          exact hk.unbind adds heq
        · cases hx

end Handles.Ok

/-- The states between completed calls, whatever the other subsystems answer. -/
abbrev HandleReaches (h : Handles n) : Prop := Reachable HandleStart HandleStep h

theorem HandleStart.ok (hs : HandleStart h) : h.Ok := by
  obtain ⟨x, hx, rfl⟩ := hs
  obtain ⟨clock, rail, rfl⟩ := id hx
  exact {
    calls := CallReaches.inv (.start hx)
    reg := rfl
    cdev := rfl
    owner := fun p d hp => by simp [State.load] at hp
    unowned := fun _ => rfl
    cooling := fun d => by simp
    new := fun d _ _ => ⟨rfl, rfl⟩
    leaving := fun d hl => by simp at hl
    once := fun d => by simp
    opps := fun d => List.nil_sublist _ }

theorem HandleReaches.ok (hr : HandleReaches h) : h.Ok :=
  hr.invariant (fun _ hs => hs.ok) fun _ _ _ hk hs => hk.step hs

/-- A step is a call of the component, or does not touch it. -/
theorem HandleStep.calls {op : HandleOp n} (hs : HandleStep h op k) :
    k.calls = h.calls ∨ ∃ op, CallStep h.calls op k.calls := by
  obtain ⟨ha, hrun⟩ := hs
  cases op with
  | devres d =>
    simp only [HandleOp.run, Option.ite_none_right_eq_some, Option.some.injEq] at hrun
    obtain ⟨-, rfl⟩ := hrun
    exact .inl rfl
  | call op adds =>
    obtain ⟨x, hx, rfl⟩ := Option.map_eq_some_iff.mp hrun
    exact .inr ⟨op, ha.1, hx⟩

theorem HandleReaches.calls (hr : HandleReaches h) : CallReaches h.calls := by
  apply hr.invariant (I := fun h => CallReaches h.calls)
  · rintro h ⟨x, hx, rfl⟩
    exact .start hx
  · intro h op k hx hs
    rcases hs.calls with heq | ⟨op, hs⟩
    · exact heq ▸ hx
    · exact hx.step hs

theorem beginProbe_inTable {env : ProbeEnv n} {d : Fin n} {s : State n} (hs : InTable s) :
    InTable (beginProbe env d s).s := by
  unfold beginProbe
  dsimp only
  split
  · exact claimSlot_inTable hs
  · exact hs
  · exact claimSlot_inTable hs

theorem CallStep.inTable {y : Calls n} {op : CallOp n} (h : CallStep x op y)
    (hopp : ∀ env opp, op = .target env opp → ∀ freq, opp = .ok freq → freq ∈ oppTable)
    (hs : InTable x.s) : InTable y.s := by
  cases h.move with
  | probed _ => exact beginProbe_inTable hs
  | inited _ => exact endProbe_inTable hs
  | removed _ _ => exact rocketDevfreqCoreRemoved_inTable hs
  | finished _ => exact rocketDevfreqFini_inTable hs
  | unbound _ => exact unbindSlot_inTable _ hs
  | @targeted env opp => exact rocketDevfreqTarget_inTable (hopp env opp rfl) hs
  | framed hf => exact hs.of_frame hf

/-- What is asked of the clock was found in the table of a device. -/
theorem HandleReaches.inTable (hr : HandleReaches h) : InTable h.calls.s := by
  induction hr with
  | start hs =>
    obtain ⟨x, ⟨clock, rail, rfl⟩, rfl⟩ := hs
    exact List.mem_cons_self
  | @step h k op hr hs ih =>
    rcases hs with ⟨ha, hrun⟩
    cases op with
    | devres d =>
      simp only [HandleOp.run, Option.ite_none_right_eq_some, Option.some.injEq] at hrun
      obtain ⟨-, rfl⟩ := hrun
      exact ih
    | call op adds =>
      obtain ⟨x, hx, rfl⟩ := Option.map_eq_some_iff.mp hrun
      obtain ⟨hadm, -, htarget⟩ := ha
      have hstep : CallStep h.calls op x := ⟨hadm, hx⟩
      refine hstep.inTable (fun env opp heq freq hf => ?_) ih
      obtain ⟨d, -, hd⟩ := htarget env opp heq
      exact (HandleReaches.ok hr).opps d |>.subset (hd freq hf)

/-- The owner of devfreq is a bound device whose regulator and devfreq device are there exactly
once for as long as it owns devfreq; the one cooling device there is sits on it, and a device
that has left holds nothing. Only rates of the OPP table are ever asked of the clock. -/
theorem handles_held (hr : HandleReaches h) :
    CallReaches h.calls ∧ InTable h.calls.s ∧
      (∀ p, h.calls.s.df.core = some p → ∃ d, h.calls.s.cores p.idx = some d ∧
        h.devfreqs d = 1 ∧ rocketSafeRate ∈ h.opps d ∧
        (h.calls.s.df.reg = true → h.reg = some d ∧ h.regulators d = 1)) ∧
      (h.calls.s.df.cdev = true → ∃ p d, h.calls.s.df.core = some p ∧
        h.calls.s.cores p.idx = some d ∧ h.cdev = some d ∧ h.devfreqs d = 1) ∧
      (∀ d, h.cooling d = if h.cdev = some d then 1 else 0) ∧
      (∀ d, (∀ i, h.calls.s.cores i ≠ some d) → h.cooling d = 0 ∧
        (h.leaving d = false → h.regulators d = 0 ∧ h.devfreqs d = 0)) ∧
      ∀ d, h.regulators d ≤ 1 ∧ h.devfreqs d ≤ 1 ∧ (h.opps d).Sublist oppTable := by
  have hk := hr.ok
  have hbound {p : CorePtr} (hp : h.calls.s.df.core = some p) :
      ∃ d, h.calls.s.cores p.idx = some d := by
    obtain ⟨-, h0, hsome⟩ := hk.calls.balanced.sound.owner hp
    exact h0 ▸ Option.isSome_iff_exists.mp hsome
  have hcdev {d : Fin n} (hd : h.cdev = some d) : ∃ p, h.calls.s.df.core = some p ∧
      h.calls.s.cores p.idx = some d ∧ h.devfreqs d = 1 := by
    have hsome : h.calls.s.df.core ≠ none := fun hn => by simp [hk.unowned hn] at hd
    obtain ⟨p, hp⟩ := Option.ne_none_iff_exists'.mp hsome
    obtain ⟨e, he⟩ := hbound hp
    obtain ⟨-, hc, hdf, -⟩ := hk.owner p e hp he
    obtain rfl := hc d hd
    exact ⟨p, hp, he, hdf⟩
  refine ⟨hr.calls, hr.inTable, fun p hp => ?_, fun hc => ?_, hk.cooling,
    fun d hd => ⟨?_, fun hl => ?_⟩, fun d => ⟨(hk.once d).1, (hk.once d).2, hk.opps d⟩⟩
  · obtain ⟨d, hd⟩ := hbound hp
    obtain ⟨hreg, -, hdf, hopp⟩ := hk.owner p d hp hd
    refine ⟨d, hd, hdf, hopp, fun hr => ?_⟩
    obtain ⟨e, he⟩ := Option.isSome_iff_exists.mp (hk.reg.trans hr)
    obtain ⟨rfl, h1⟩ := hreg e he
    exact ⟨he, h1⟩
  · obtain ⟨d, hd⟩ := Option.isSome_iff_exists.mp (hk.cdev.trans hc)
    obtain ⟨p, hp, hslot, hdf⟩ := hcdev hd
    exact ⟨p, d, hp, hslot, hd, hdf⟩
  · rw [hk.cooling d, if_neg]
    intro hc
    obtain ⟨p, -, hslot, -⟩ := hcdev hc
    exact hd p.idx hslot
  · exact hk.new d hl (.inl hd)

/-- The one core there is, probed. -/
def probed : Handles 1 where
  calls := beginProbe (.smooth 0) ⟨0, Nat.one_pos⟩ (.load rocketSafeRate 0)
  reg := none
  cdev := none
  regulators _ := 0
  devfreqs _ := 0
  cooling _ := 0
  opps _ := []
  leaving _ := false

/-- The core has registered with devfreq. -/
def registered : Handles 1 where
  __ := probed.effect (.init (ProbeEnv.smooth 0).init) fun _ => true
  calls := ⟨probed.calls.endProbe (ProbeEnv.smooth 0).init, .idle⟩

theorem registered_reaches : HandleReaches registered := by
  have h0 : HandleReaches { probed with calls := ⟨.load rocketSafeRate 0, .idle⟩ } :=
    .start ⟨_, ⟨_, _, rfl⟩, rfl⟩
  have h1 : HandleReaches probed := h0.step (e := .call (.probe (.smooth 0) 0) fun _ => true)
    ⟨⟨by simp [CallOp.Admissible, State.load], fun _ _ _ => rfl, by simp⟩, rfl⟩
  exact h1.step (e := .call (.init (ProbeEnv.smooth 0).init) fun _ => true)
    ⟨⟨trivial, by simp, by simp⟩, rfl⟩

theorem handles_held_registered :
    registered.calls.s.df.core.isSome = true ∧ registered.cdev = some 0 ∧
      registered.cooling 0 = 1 := by
  obtain ⟨-, -, -, hcdev, hcool, -, -⟩ := handles_held registered_reaches
  obtain ⟨p, d, hp, -⟩ := hcdev (by decide)
  exact ⟨by rw [hp]; rfl, rfl, (hcool 0).trans (if_pos rfl)⟩

end RocketNpu.Devfreq
