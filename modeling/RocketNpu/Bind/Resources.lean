import RocketNpu.Bind.Slots
import RocketNpu.Job.Group

namespace RocketNpu.Bind
open Runs SlotTable Job

/-- What the driver has taken for one platform device: counts of what is taken less what is given
back, and the `rocket_device` that the registered interrupt handler has a pointer into. -/
structure Held where
  group : GroupRefs
  irq : Option ℕ
  wq : ℤ
  sched : ℤ
  pm : ℤ

def Held.nothing : Held := ⟨⟨false, 0⟩, none, 0, 0, 0⟩

/-- `rocket_job_fini`, and the error path of `rocket_job_init`. -/
def finiJobs (h : Held) : Held := { h with sched := h.sched - 1, wq := h.wq - 1 }

/-- `rocket_job_init`, for a core of the `rocket_device` at `addr`; the interrupt goes to `devm`.
When `drm_sched_init` fails, `drm_sched_fini` is called all the same. -/
def initJobs (env : CoreInitEnv) (addr : ℕ) (h : Held) : Option Errno × Held :=
  match env.irq <|> env.requestIrq with
  | some e => (some e, h)
  | none =>
    let h := { h with irq := some addr }
    match env.wq with
    | some e => (some e, h)
    | none =>
      let h := { h with wq := h.wq + 1 }
      match env.schedInit with
      | some e => (some e, finiJobs h)
      | none => (none, { h with sched := h.sched + 1 })

/-- `rocket_core_fini`. -/
def finiCore (h : Held) : Held :=
  finiJobs { h with pm := h.pm - 1, group := iommuGroupPut h.group }

/-- The steps of `rocket_core_init` before it takes the group. -/
def devmSteps (env : CoreInitEnv) : Option Errno :=
  env.resets <|> env.clks <|> env.pcIomem <|> env.cnaIomem <|> env.coreIomem <|> env.dmaMask

/-- `iommu_group_get`, which returns NULL for a device in no group. -/
def groupGet (grouped : Bool) (g : GroupRefs) : GroupRefs :=
  if grouped then iommuGroupGet g else { g with held := false }

/-- `rocket_core_init`, which does not look at what `iommu_group_get` returned. -/
def initCore (env : CoreInitEnv) (grouped : Bool) (addr : ℕ) (h : Held) : Option Errno × Held :=
  match devmSteps env with
  | some e => (some e, h)
  | none =>
    match initJobs env addr { h with group := groupGet grouped h.group } with
    | (some e, h) => (some e, { h with group := iommuGroupPut h.group })
    | (none, h) =>
      let h := { h with pm := h.pm + 1 }
      match env.resume with
      | some e => (some e, finiCore h)
      | none => (none, h)

/-- `drm_sched_init` is reached and fails. -/
def schedFails (env : CoreInitEnv) : Bool :=
  (devmSteps env).isNone && (env.irq <|> env.requestIrq).isNone && env.wq.isNone &&
    env.schedInit.isSome

/-- The slots with what is taken for each device. The driver core releases what `devm` holds for
the device `pending` next. -/
structure Resources (Dev : Type*) where
  slots : State Dev
  held : Dev → Held
  pending : Option Dev
  /-- How often `drm_sched_init` failed for a device. -/
  schedFailures : Dev → ℕ
  /-- Whether a device was in an IOMMU group when it was last probed. -/
  grouped : Dev → Bool

variable {Dev : Type*}

def Resources.load : Resources Dev :=
  ⟨.load, fun _ => .nothing, none, fun _ => 0, fun _ => false⟩

/-- What a probe depends on outside. -/
structure BindEnv where
  group : Bool
  deviceInit : Except Errno ℕ
  core : CoreInitEnv
  /-- The device is in an IOMMU group. -/
  grouped : Bool

variable [DecidableEq Dev]

/-- `rocket_probe` from `dev_set_drvdata` on. -/
def bindCore (env : BindEnv) (d : Dev) (r : RocketDevice Dev) (s : Resources Dev) :
    Resources Dev :=
  let drvdata := Function.update s.slots.drvdata d (some r.addr)
  match firstFree r.maxCores r.devs with
  | none => { s with slots := ⟨some r, drvdata, s.slots.given⟩, pending := some d }
  | some i =>
    let s := { s with
      schedFailures := if schedFails env.core then
        Function.update s.schedFailures d (s.schedFailures d + 1) else s.schedFailures
      grouped := Function.update s.grouped d env.grouped }
    match initCore env.core env.grouped r.addr (s.held d) with
    | (none, h) => { s with
        slots := ⟨some (r.claim i d), drvdata, Function.update s.slots.given d (some i)⟩
        held := Function.update s.held d h }
    | (some _, h) => { s with
        slots := ⟨(r.claim i d).release i, drvdata, s.slots.given⟩
        held := Function.update s.held d h
        pending := some d }

def Resources.probe (available : ℕ) (env : BindEnv) (d : Dev) (s : Resources Dev) :
    Resources Dev :=
  match s.slots.rdev with
  | some r => bindCore env d r s
  | none =>
    if !env.group then { s with pending := some d }
    else
      match env.deviceInit with
      | .error _ => { s with pending := some d }
      | .ok addr => bindCore env d (rocketDeviceInit available addr) s

def Resources.remove (stale : Option ℕ) (d : Dev) (s : Resources Dev) : Resources Dev :=
  let slots := (rocketRemove stale d s.slots).removed d
  match findCoreForDev stale d s.slots, s.slots.rdev with
  | some _, some _ => { s with
      held := Function.update s.held d (finiCore (s.held d))
      slots := slots
      pending := some d }
  | _, _ => { s with slots := slots, pending := some d }

/-- `devres_release_all` for a device without a driver. -/
def Resources.releaseDevres (d : Dev) (s : Resources Dev) : Resources Dev :=
  { s with held := Function.update s.held d { s.held d with irq := none }, pending := none }

inductive ResOp (Dev : Type*) where
  | probe (env : BindEnv) (d : Dev)
  | remove (stale : Option ℕ) (d : Dev)
  | devres (d : Dev)

def ResOp.run (available : ℕ) : ResOp Dev → Resources Dev → Resources Dev
  | .probe env d, s => s.probe available env d
  | .remove stale d, s => s.remove stale d
  | .devres d, s => s.releaseDevres d

/-- As for the slots; what `devm` holds is released before anything else happens. -/
def ResOp.Admissible (available : ℕ) : ResOp Dev → Resources Dev → Prop
  | .probe _ d, s => s.pending = none ∧ ¬ s.slots.Bound d ∧ 0 < available
  | .remove _ d, s => s.pending = none ∧ s.slots.Bound d
  | .devres d, s => s.pending = some d

def ResStep (available : ℕ) (s : Resources Dev) (op : ResOp Dev) (t : Resources Dev) : Prop :=
  op.Admissible available s ∧ t = op.run available s

/-- All that is not left to `devm` is taken once for a bound device and not at all for others,
but for a group that is not there, and a scheduler that is taken down without having been set
up. -/
structure Balanced (bound grouped : Bool) (failures : ℕ) (h : Held) : Prop where
  group : h.group = ⟨bound && grouped, (bound && grouped).toNat⟩
  wq : h.wq = bound.toNat
  pm : h.pm = bound.toNat
  sched : h.sched = bound.toNat - failures

variable {addr failures : ℕ} {grouped : Bool} {h : Held}

/-- What the end of a core gives back of what its start took. -/
theorem iommuGroupPut_groupGet (grouped : Bool) :
    iommuGroupPut (groupGet grouped ⟨false, 0⟩) = ⟨false, 0⟩ := by
  cases grouped <;> simp [groupGet, iommuGroupPut, iommuGroupGet]

/-- What `rocket_core_init` leaves behind when it gets through, and when it does not. -/
theorem Balanced.initCore {before : Bool} (hb : Balanced false before failures h)
    (env : CoreInitEnv) (grouped : Bool) (addr : ℕ) :
    (initCore env grouped addr h).1 = none ∧ schedFails env = false ∧
        Balanced true grouped failures (initCore env grouped addr h).2 ∧
        (initCore env grouped addr h).2.irq = some addr ∨
      (∃ e, (initCore env grouped addr h).1 = some e) ∧
        Balanced false grouped (failures + (schedFails env).toNat)
          (initCore env grouped addr h).2 ∧
        ((initCore env grouped addr h).2.irq = h.irq ∨
          (initCore env grouped addr h).2.irq = some addr) := by
  obtain ⟨hgroup, hwq, hpm, hsched⟩ := hb
  have hgroup : h.group = ⟨false, 0⟩ := hgroup
  have hput := iommuGroupPut_groupGet grouped
  unfold Bind.initCore initJobs
  rcases hdevm : devmSteps env with _ | e
  · rcases hirq : env.irq <|> env.requestIrq with _ | e
    · rcases hq : env.wq with _ | e
      · rcases hi : env.schedInit with _ | e
        · rcases hr : env.resume with _ | e
          · left
            refine ⟨rfl, by simp [schedFails, hi], ⟨?_, ?_, ?_, ?_⟩, rfl⟩
            · cases grouped <;> simp [groupGet, iommuGroupGet, hgroup]
            · simp [hwq]
            · simp [hpm]
            · simp [hsched]
              omega
          · right
            refine ⟨⟨e, rfl⟩, ⟨?_, ?_, ?_, ?_⟩, .inr rfl⟩
            · simpa [finiCore, finiJobs, hgroup] using hput
            · simp [finiCore, finiJobs, hwq]
            · simp [finiCore, finiJobs, hpm]
            · simp [finiCore, finiJobs, hsched, schedFails, hi]
        · right
          refine ⟨⟨e, rfl⟩, ⟨?_, ?_, ?_, ?_⟩, .inr rfl⟩
          · simpa [finiJobs, hgroup] using hput
          · simp [finiJobs, hwq]
          · simp [finiJobs, hpm]
          · simp [finiJobs, hsched, schedFails, hi, hdevm, hirq, hq]
            omega
      · right
        refine ⟨⟨e, rfl⟩, ⟨?_, hwq, hpm, ?_⟩, .inr rfl⟩
        · simpa [hgroup] using hput
        · simp [hsched, schedFails, hq]
    · right
      refine ⟨⟨e, rfl⟩, ⟨?_, hwq, hpm, ?_⟩, .inl rfl⟩
      · simpa [hgroup] using hput
      · simp [hsched, schedFails, hirq]
  · right
    refine ⟨⟨e, rfl⟩, ⟨hgroup, hwq, hpm, ?_⟩, .inl rfl⟩
    simp [hsched, schedFails, hdevm]

theorem Balanced.finiCore (hb : Balanced true grouped failures h) :
    Balanced false grouped failures (finiCore h) := by
  obtain ⟨hgroup, hwq, hpm, hsched⟩ := hb
  refine ⟨?_, ?_, ?_, ?_⟩
  · cases grouped <;> simp [Bind.finiCore, finiJobs, iommuGroupPut, hgroup]
  · simp [Bind.finiCore, finiJobs, hwq]
  · simp [Bind.finiCore, finiJobs, hpm]
  · have hone : h.sched = 1 - failures := hsched
    show h.sched - 1 = 0 - failures
    omega

/-- What the resources and the slots have to do with each other between two calls. -/
structure Accounted (s : Resources Dev) : Prop where
  slots : Wf s.slots
  bound : ∀ d, s.slots.Bound d → Balanced true (s.grouped d) (s.schedFailures d) (s.held d) ∧
    ∀ r, s.slots.rdev = some r → (s.held d).irq = some r.addr
  unbound : ∀ d, ¬ s.slots.Bound d → Balanced false (s.grouped d) (s.schedFailures d) (s.held d) ∧
    (s.pending ≠ some d → (s.held d).irq = none) ∧
    ∀ a r, (s.held d).irq = some a → s.slots.rdev = some r → a = r.addr
  pending : ∀ d, s.pending = some d → ¬ s.slots.Bound d

variable {s t : Resources Dev} {r : RocketDevice Dev} {d : Dev} {available : ℕ} {benv : BindEnv}

/-- The slots do what they do alone. -/
theorem slots_bindCore (r : RocketDevice Dev) (s : Resources Dev) :
    (bindCore benv d r s).slots = State.probed d (probeCore ⟨benv.group, benv.deviceInit,
      (initCore benv.core benv.grouped r.addr (s.held d)).1⟩ d r s.slots) := by
  unfold bindCore probeCore
  dsimp only
  cases firstFree r.maxCores r.devs with
  | none => rfl
  | some i =>
    dsimp only
    rcases initCore benv.core benv.grouped r.addr (s.held d) with ⟨_ | e, h⟩ <;> rfl

omit [DecidableEq Dev] in
theorem addr_release {r r' : RocketDevice Dev} {i : ℕ} (h : r.release i = some r') :
    r'.addr = r.addr := by
  unfold RocketDevice.release at h
  split_ifs at h
  cases h
  rfl

/-- A call is about one device, and leaves what the others hold alone. -/
theorem Accounted.of_call {σ : State Dev} {pending : Option Dev} {k : ℕ} (hwf : Wf σ)
    (haddr : ∀ r', σ.rdev = some r' → r'.addr = addr)
    (hbound : ∀ e ≠ d, σ.Bound e →
      Balanced true (s.grouped e) (s.schedFailures e) (s.held e) ∧ (s.held e).irq = some addr)
    (hunbound : ∀ e ≠ d, ¬ σ.Bound e →
      Balanced false (s.grouped e) (s.schedFailures e) (s.held e) ∧ (s.held e).irq = none)
    (hd : σ.Bound d ∧ pending = none ∧ Balanced true grouped k h ∧ h.irq = some addr ∨
      ¬ σ.Bound d ∧ pending = some d ∧ Balanced false grouped k h ∧
        (h.irq = none ∨ h.irq = some addr)) :
    Accounted (⟨σ, Function.update s.held d h, pending, Function.update s.schedFailures d k,
      Function.update s.grouped d grouped⟩ : Resources Dev) := by
  refine ⟨hwf, fun e he => ?_, fun e he => ?_, fun e he => ?_⟩
  · by_cases hed : e = d
    · subst hed
      obtain ⟨-, -, hb, hirq⟩ := hd.resolve_right fun hd => hd.1 he
      simp only [Function.update_self]
      exact ⟨hb, fun r' hr' => (haddr r' hr').symm ▸ hirq⟩
    · obtain ⟨hb, hirq⟩ := hbound e hed he
      simp only [Function.update_of_ne hed]
      exact ⟨hb, fun r' hr' => (haddr r' hr').symm ▸ hirq⟩
  · by_cases hed : e = d
    · subst hed
      obtain ⟨-, hp, hb, hirq⟩ := hd.resolve_left fun hd => he hd.1
      simp only [Function.update_self]
      refine ⟨hb, fun hne => absurd hp hne, fun a r' ha hr' => ?_⟩
      rcases hirq with hirq | hirq
      · simp [hirq] at ha
      · rw [haddr r' hr']
        exact (Option.some.inj (hirq.symm.trans ha)).symm
    · obtain ⟨hb, hirq⟩ := hunbound e hed he
      simp only [Function.update_of_ne hed]
      exact ⟨hb, fun _ => hirq, fun a r' ha => by simp [hirq] at ha⟩
  · change pending = some e at he
    rcases hd with ⟨-, hp, -⟩ | ⟨hd, hp, -⟩
    · rw [hp] at he
      cases he
    · obtain rfl := Option.some.inj (hp.symm.trans he)
      exact hd

/-- What the driver core notes about one device leaves the others bound, or not, as before. -/
theorem bound_update {given : Dev → Option ℕ} {o : Option (RocketDevice Dev)}
    {drvdata drvdata' : Dev → Option ℕ} {o' : Option (RocketDevice Dev)} {e : Dev} (he : e ≠ d)
    (slot : Option ℕ) : (⟨o, drvdata, Function.update given d slot⟩ : State Dev).Bound e ↔
      (⟨o', drvdata', given⟩ : State Dev).Bound e := by
  simp [State.Bound, Function.update_of_ne he]

theorem Accounted.bindCore (hv : Valid r) (hmax : 0 < r.maxCores) (hk : Known r s.slots.drvdata)
    (hg : Recorded r s.slots.given) (hd : ¬ s.slots.Bound d)
    (hbound : ∀ e, s.slots.Bound e →
      Balanced true (s.grouped e) (s.schedFailures e) (s.held e) ∧ (s.held e).irq = some r.addr)
    (hunbound : ∀ e, ¬ s.slots.Bound e →
      Balanced false (s.grouped e) (s.schedFailures e) (s.held e) ∧ (s.held e).irq = none)
    (hp : s.pending = none) : Accounted (bindCore benv d r s) := by
  have hwf : Wf (Bind.bindCore benv d r s).slots := by
    rw [slots_bindCore]
    exact probeCore_wf hv hmax hk hg (by simpa [State.Bound] using hd)
  obtain ⟨hbal, hirq⟩ := hunbound d hd
  revert hwf
  unfold Bind.bindCore
  dsimp only
  cases hf : firstFree r.maxCores r.devs with
  | none =>
    intro hwf
    have := Accounted.of_call (s := s) (h := s.held d) (k := s.schedFailures d) (d := d) hwf
      (fun r' hr' => congrArg _ (Option.some.inj hr').symm)
      (fun e _ => hbound e) (fun e _ => hunbound e) (.inr ⟨hd, rfl, hbal, .inl hirq⟩)
    simpa using this
  | some i =>
    have hinit := hbal.initCore benv.core benv.grouped r.addr
    rcases hcore : initCore benv.core benv.grouped r.addr (s.held d) with ⟨_ | e, h⟩
    · rw [hcore] at hinit
      obtain ⟨-, hfails, hbal', hirq'⟩ := hinit.resolve_right (by simp)
      simp only [hfails, Bool.false_eq_true, if_false]
      intro hwf
      have := Accounted.of_call (s := s) (h := h) (k := s.schedFailures d) (d := d) hwf
        (fun r' hr' => congrArg _ (Option.some.inj hr').symm)
        (fun e hed he => hbound e ((bound_update hed _).mp he))
        (fun e hed he => hunbound e fun hb => he ((bound_update hed _).mpr hb))
        (.inl ⟨by simp [State.Bound], rfl, hbal', hirq'⟩)
      simpa [hp] using this
    · rw [hcore] at hinit
      obtain ⟨-, hbal', hirq'⟩ := hinit.resolve_left (by simp)
      rw [hirq] at hirq'
      have hfails : (if schedFails benv.core = true then
          Function.update s.schedFailures d (s.schedFailures d + 1) else s.schedFailures) =
          Function.update s.schedFailures d
            (s.schedFailures d + (schedFails benv.core).toNat) := by
        cases schedFails benv.core <;> simp
      simp only [hfails]
      intro hwf
      exact Accounted.of_call hwf (fun r' => addr_release) (fun e _ => hbound e)
        (fun e _ => hunbound e) (.inr ⟨hd, rfl, hbal', hirq'⟩)

theorem Accounted.probe (ha : Accounted s) (hp : s.pending = none) (hd : ¬ s.slots.Bound d)
    (hpos : 0 < available) : Accounted (s.probe available benv d) := by
  have hirq (e : Dev) (he : ¬ s.slots.Bound e) :
      Balanced false (s.grouped e) (s.schedFailures e) (s.held e) ∧ (s.held e).irq = none := by
    obtain ⟨hb, hirq, -⟩ := ha.unbound e he
    exact ⟨hb, hirq (by simp [hp])⟩
  unfold Resources.probe
  cases hr : s.slots.rdev with
  | some r =>
    have hmax : 0 < r.maxCores := by
      have hle := occupied_le r.maxCores r.devs
      have hcount := (ha.slots.valid r hr).numCores
      have halive := ha.slots.alive r hr
      omega
    refine Accounted.bindCore (ha.slots.valid r hr) hmax (ha.slots.known r hr)
      (ha.slots.recorded r hr) hd (fun e he => ?_) hirq hp
    obtain ⟨hb, hirq⟩ := ha.bound e he
    exact ⟨hb, hirq r hr⟩
  | none =>
    have hgone := ha.slots.absent hr
    have hnone (e : Dev) : ¬ s.slots.Bound e := by simp [State.Bound, hgone e]
    have hfail (p : Option Dev) : Accounted { s with pending := p } :=
      ⟨ha.slots, fun e he => absurd he (hnone e),
        fun e he => ⟨(hirq e he).1, fun _ => (hirq e he).2, fun a r ha => by
          simp [(hirq e he).2] at ha⟩, fun e _ => hnone e⟩
    dsimp only
    split_ifs
    · exact hfail _
    · cases benv.deviceInit with
      | error e => exact hfail _
      | ok addr =>
        refine Accounted.bindCore (.init available addr) hpos ?_ (.init available addr hgone) hd
          (fun e he => absurd he (hnone e)) (fun e _ => hirq e (hnone e)) hp
        intro i _ b hb
        cases hb

theorem Accounted.remove (ha : Accounted s) (hp : s.pending = none) (hd : s.slots.Bound d)
    (stale : Option ℕ) : Accounted (s.remove stale d) := by
  have hwf := rocketRemove_wf ha.slots hd stale
  obtain ⟨hbal, hirq⟩ := ha.bound d hd
  obtain ⟨i, hgiven⟩ := Option.isSome_iff_exists.mp hd
  obtain ⟨r, hr, hi, hid⟩ := ha.slots.slot hgiven
  have hfind := findCoreForDev_eq ha.slots hr hi hid stale
  rw [rocketRemove_eq ha.slots hr hi hid stale] at hwf
  unfold Resources.remove
  simp only [hfind, hr, rocketRemove_eq ha.slots hr hi hid stale]
  have := Accounted.of_call (s := s) (h := finiCore (s.held d)) (d := d) hwf
    (fun r' => addr_release) (fun e hed he => ?_) (fun e hed he => ?_)
    (.inr ⟨by simp [State.Bound, State.removed], rfl, hbal.finiCore, .inr (hirq r hr)⟩)
  · simpa using this
  · obtain ⟨hb, hirq⟩ := ha.bound e ((bound_update hed _).mp he)
    exact ⟨hb, hirq r hr⟩
  · obtain ⟨hb, hirq, -⟩ := ha.unbound e fun hb => he ((bound_update hed _).mpr hb)
    exact ⟨hb, hirq (by simp [hp])⟩

theorem Accounted.releaseDevres (ha : Accounted s) (hd : s.pending = some d) :
    Accounted (s.releaseDevres d) := by
  have hunbound := ha.pending d hd
  refine ⟨ha.slots, fun e he => ?_, fun e he => ?_, fun e he => by cases he⟩
  · have hed : e ≠ d := fun hed => hunbound (hed ▸ he)
    simpa [Resources.releaseDevres, hed] using ha.bound e he
  · obtain ⟨hb, hirq, haddr⟩ := ha.unbound e he
    by_cases hed : e = d
    · subst hed
      simp only [Resources.releaseDevres, Function.update_self]
      exact ⟨⟨hb.group, hb.wq, hb.pm, hb.sched⟩, by simp, by simp⟩
    · have hirq := hirq (by simpa [hd] using Ne.symm hed)
      simp only [Resources.releaseDevres, Function.update_of_ne hed]
      exact ⟨hb, fun _ => hirq, haddr⟩

theorem ResStep.accounted {op : ResOp Dev} (ha : Accounted s) (hs : ResStep available s op t) :
    Accounted t := by
  obtain ⟨hadm, rfl⟩ := hs
  cases op with
  | probe env d => exact ha.probe hadm.1 hadm.2.1 hadm.2.2
  | remove stale d => exact ha.remove hadm.1 hadm.2 stale
  | devres d => exact ha.releaseDevres hadm

theorem accounted_of_reachable (h : Reachable (· = Resources.load) (ResStep available) s) :
    Accounted s := by
  refine h.invariant ?_ fun _ _ _ ha hs => hs.accounted ha
  rintro _ rfl
  have hnone (e : Dev) : ¬ (Resources.load : Resources Dev).slots.Bound e := by
    simp [Resources.load, State.load, State.Bound]
  exact ⟨.load, fun e he => absurd he (hnone e),
    fun e _ => ⟨⟨rfl, rfl, rfl, rfl⟩, fun _ => rfl, fun a r ha => by cases ha⟩,
    fun e he => by cases he⟩

/-- An interrupt of the device would be handled with a pointer into memory that was freed. -/
def Resources.Dangling (s : Resources Dev) (d : Dev) : Prop :=
  ∃ a, (s.held d).irq = some a ∧ ∀ r, s.slots.rdev = some r → r.addr ≠ a

/-- Whatever fails, each device holds what it is due. A handler outlives the memory of its core
exactly from the end of the last core, or of the first one that cannot be set up, to the release
of that core's `devm` resources. -/
theorem held_balanced (h : Reachable (· = Resources.load) (ResStep available) s) (d : Dev) :
    Balanced (decide (s.slots.Bound d)) (s.grouped d) (s.schedFailures d) (s.held d) ∧
      (s.pending ≠ some d → ((s.held d).irq.isSome ↔ s.slots.Bound d)) ∧
      (s.Dangling d ↔
        s.pending = some d ∧ (s.held d).irq.isSome ∧ s.slots.rdev = none) := by
  have ha := accounted_of_reachable h
  by_cases hd : s.slots.Bound d
  · obtain ⟨hb, hirq⟩ := ha.bound d hd
    obtain ⟨i, hgiven⟩ := Option.isSome_iff_exists.mp hd
    obtain ⟨r, hr, -⟩ := ha.slots.slot hgiven
    refine ⟨by simpa [hd] using hb, by simp [hirq r hr, hd], ?_⟩
    simp [Resources.Dangling, hirq r hr, hr]
  · obtain ⟨hb, hirq, haddr⟩ := ha.unbound d hd
    refine ⟨by simpa [hd] using hb, fun hp => by simp [hirq hp, hd], ?_⟩
    constructor
    · rintro ⟨a, hai, hgone⟩
      refine ⟨?_, by simp [hai], ?_⟩
      · by_contra hp
        simp [hirq hp] at hai
      · by_contra hsome
        obtain ⟨r, hr⟩ := Option.ne_none_iff_exists'.mp hsome
        exact hgone r hr (haddr a r hai hr).symm
    · rintro ⟨-, hsome, hnone⟩
      obtain ⟨a, hai⟩ := Option.isSome_iff_exists.mp hsome
      exact ⟨a, hai, by simp [hnone]⟩

/-- The only core of a device tree is bound and removed. -/
theorem held_balanced_removed : ∃ s t : Resources ℕ, Reachable (· = .load) (ResStep 1) s ∧
    Balanced true true 0 (s.held 7) ∧ ResStep 1 s (.remove none 7) t ∧ t.Dangling 7 ∧
      Balanced false true 0 (t.held 7) := by
  have h0 : Reachable (· = (.load : Resources ℕ)) (ResStep 1) .load := .start rfl
  have hprobe : (ResOp.probe ⟨true, .ok 3, .smooth, true⟩ 7 : ResOp ℕ).Admissible 1 .load :=
    ⟨rfl, by decide, by decide⟩
  have h1 := h0.step ⟨hprobe, rfl⟩
  have hremove : (ResOp.remove none 7 : ResOp ℕ).Admissible 1
      (ResOp.run 1 (.probe ⟨true, .ok 3, .smooth, true⟩ 7) .load) := ⟨rfl, by decide⟩
  have h2 := h1.step ⟨hremove, rfl⟩
  obtain ⟨hb, -, hdangling⟩ := held_balanced h2 7
  exact ⟨_, _, h1, (held_balanced h1 7).1, ⟨hremove, rfl⟩, hdangling.mpr ⟨rfl, rfl, rfl⟩, hb⟩

end RocketNpu.Bind
