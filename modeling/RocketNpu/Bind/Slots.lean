import RocketNpu.Errno
import RocketNpu.Lib.Runs
import RocketNpu.Lib.SlotTable

namespace RocketNpu.Bind
open Runs SlotTable

/-- A `rocket_core`, as far as binding goes; `none` is NULL. -/
structure RocketCore (Dev : Type*) where
  dev : Option Dev
  index : ℕ

/-- A `rocket_device`, which was allocated at `addr`. -/
structure RocketDevice (Dev : Type*) where
  addr : ℕ
  maxCores : ℕ
  numCores : ℕ
  cores : ℕ → RocketCore Dev

structure State (Dev : Type*) where
  /-- The global `rdev`. -/
  rdev : Option (RocketDevice Dev)
  /-- `dev_get_drvdata` of a platform device: the address of a `rocket_device`. -/
  drvdata : Dev → Option ℕ
  /-- What the driver core knows, which no code of the driver reads: the probe of the device
  returned 0, in the slot named here, and the device was not removed since. -/
  given : Dev → Option ℕ

variable {Dev : Type*}

/-- Module load. -/
def State.load : State Dev := ⟨none, fun _ => none, fun _ => none⟩

namespace RocketDevice

def devs (r : RocketDevice Dev) (i : ℕ) : Option Dev := (r.cores i).dev

def claim (r : RocketDevice Dev) (i : ℕ) (d : Dev) : RocketDevice Dev :=
  { r with
    cores := Function.update r.cores i ⟨some d, i⟩
    numCores := r.numCores + 1 }

def clear (r : RocketDevice Dev) (i : ℕ) : RocketDevice Dev :=
  { r with
    cores := Function.update r.cores i { r.cores i with dev := none }
    numCores := r.numCores - 1 }

/-- The slot is given back, and with the last core the device. -/
def release (r : RocketDevice Dev) (i : ℕ) : Option (RocketDevice Dev) :=
  if (r.clear i).numCores = 0 then none else some (r.clear i)

end RocketDevice

/-- What `rocket_device_init` makes for a device tree with `available` cores. -/
def rocketDeviceInit (available addr : ℕ) : RocketDevice Dev :=
  ⟨addr, available, 0, fun _ => ⟨none, 0⟩⟩

/-- What `rocket_probe` depends on outside. -/
structure ProbeEnv where
  /-- `devres_open_group`. -/
  group : Bool
  /-- `rocket_device_init`: an error, or the address of the new device. -/
  deviceInit : Except Errno ℕ
  coreInit : Option Errno

variable [DecidableEq Dev]

/-- `rocket_probe` from `dev_set_drvdata` on. What it returns as 0 is `ok` here, with the
`core` it took. -/
def probeCore (env : ProbeEnv) (d : Dev) (r : RocketDevice Dev) (s : State Dev) :
    Except Errno ℕ × State Dev :=
  let s := { s with rdev := some r, drvdata := Function.update s.drvdata d (some r.addr) }
  match firstFree r.maxCores r.devs with
  | none => (.error .enxio, s)
  | some i =>
    match env.coreInit with
    | none => (.ok i, { s with rdev := some (r.claim i d) })
    | some e => (.error e, { s with rdev := (r.claim i d).release i })

def rocketProbe (available : ℕ) (env : ProbeEnv) (d : Dev) (s : State Dev) :
    Except Errno ℕ × State Dev :=
  match s.rdev with
  | some r => probeCore env d r s
  | none =>
    if !env.group then (.error .enomem, s)
    else
      match env.deviceInit with
      | .error e => (.error e, s)
      | .ok addr => probeCore env d (rocketDeviceInit available addr) s

/-- The device is looked for in the `rocket_device` of its probe. If that is not the present
one, memory that is not its own answers, with `stale`. -/
def findCoreForDev (stale : Option ℕ) (d : Dev) (s : State Dev) : Option ℕ :=
  match s.rdev, s.drvdata d with
  | some r, some addr => if addr = r.addr then findSlot r.maxCores r.devs d else stale
  | _, _ => stale

def rocketRemove (stale : Option ℕ) (d : Dev) (s : State Dev) : State Dev :=
  match findCoreForDev stale d s, s.rdev with
  | some i, some r => { s with rdev := r.release i }
  | _, _ => s

/-- The schedulers `rocket_job_open` writes into an array of `num_cores` pointers. -/
def rocketJobOpen (r : RocketDevice Dev) : List ℕ :=
  (List.range r.maxCores).filter fun core => (r.devs core).isSome

/-- The device was probed with success and not removed since. -/
def State.Bound (s : State Dev) (d : Dev) : Prop := (s.given d).isSome

/-- The driver core takes note of what a probe returned. -/
def State.probed (d : Dev) : Except Errno ℕ × State Dev → State Dev
  | (.ok i, s) => { s with given := Function.update s.given d (some i) }
  | (.error _, s) => s

/-- The driver core takes note of a removal, whatever `rocket_remove` did. -/
def State.removed (d : Dev) (s : State Dev) : State Dev :=
  { s with given := Function.update s.given d none }

inductive Op (Dev : Type*) where
  | probe (env : ProbeEnv) (d : Dev)
  | remove (stale : Option ℕ) (d : Dev)

def Op.run (available : ℕ) : Op Dev → State Dev → State Dev
  | .probe env d, s => State.probed d (rocketProbe available env d s)
  | .remove stale d, s => (rocketRemove stale d s).removed d

/-- The driver core probes a device that is not bound and removes one that is; a device that
is probed is a core of the device tree. -/
def Op.Admissible (available : ℕ) : Op Dev → State Dev → Prop
  | .probe _ d, s => ¬ s.Bound d ∧ 0 < available
  | .remove _ d, s => s.Bound d

def Step (available : ℕ) (s : State Dev) (op : Op Dev) (t : State Dev) : Prop :=
  op.Admissible available s ∧ t = op.run available s

variable {r : RocketDevice Dev} {s t : State Dev} {i : ℕ} {d : Dev} {available : ℕ}

omit [DecidableEq Dev] in
theorem RocketDevice.devs_claim (r : RocketDevice Dev) (i : ℕ) (d : Dev) :
    (r.claim i d).devs = Function.update r.devs i (some d) := by
  funext j
  by_cases h : j = i
  · simp [devs, claim, h]
  · simp [devs, claim, h]

omit [DecidableEq Dev] in
theorem RocketDevice.devs_clear (r : RocketDevice Dev) (i : ℕ) :
    (r.clear i).devs = Function.update r.devs i none := by
  funext j
  by_cases h : j = i
  · simp [devs, clear, h]
  · simp [devs, clear, h]

/-- The count, the slots and the indices of a `rocket_device` agree. -/
structure Valid (r : RocketDevice Dev) : Prop where
  numCores : r.numCores = occupied r.maxCores r.devs
  distinct : Distinct r.maxCores r.devs
  index : ∀ i d, r.devs i = some d → (r.cores i).index = i

omit [DecidableEq Dev] in
theorem Valid.init (available addr : ℕ) :
    Valid (rocketDeviceInit available addr : RocketDevice Dev) := by
  have hfree (i : ℕ) : (rocketDeviceInit available addr : RocketDevice Dev).devs i = none := rfl
  refine ⟨?_, ?_, ?_⟩
  · change 0 = occupied available (fun _ => none)
    apply Eq.symm
    apply Nat.eq_zero_of_not_pos
    rw [occupied_pos_iff]
    simp
  · intro i _ j _ a ha
    rw [hfree] at ha
    cases ha
  · intro i d hd
    rw [hfree] at hd
    cases hd

omit [DecidableEq Dev] in
theorem Valid.claim (hv : Valid r) (hi : i < r.maxCores) (hfree : r.devs i = none)
    (hd : ∀ j < r.maxCores, r.devs j ≠ some d) : Valid (r.claim i d) := by
  refine ⟨?_, ?_, fun j b hj => ?_⟩
  · rw [RocketDevice.devs_claim]
    exact (congrArg (· + 1) hv.numCores).trans (occupied_claim hi hfree d).symm
  · rw [RocketDevice.devs_claim]
    exact hv.distinct.claim hd i
  · rw [RocketDevice.devs_claim] at hj
    rcases claimed hj with ⟨hji, _⟩ | ⟨hji, hj⟩
    · simp [RocketDevice.claim, hji]
    · simpa [RocketDevice.claim, hji] using hv.index j b hj

omit [DecidableEq Dev] in
theorem Valid.clear (hv : Valid r) (hi : i < r.maxCores) (hd : r.devs i = some d) :
    Valid (r.clear i) := by
  refine ⟨?_, ?_, fun j b hj => ?_⟩
  · rw [RocketDevice.devs_clear]
    have hcount := occupied_release hi hd
    change r.numCores - 1 = occupied r.maxCores _
    rw [hv.numCores, hcount, Nat.add_sub_cancel]
  · rw [RocketDevice.devs_clear]
    exact hv.distinct.release i
  · rw [RocketDevice.devs_clear] at hj
    obtain ⟨hji, hj⟩ := released hj
    simpa [RocketDevice.clear, hji] using hv.index j b hj

/-- The cores of a device know it. -/
def Known (r : RocketDevice Dev) (drvdata : Dev → Option ℕ) : Prop :=
  ∀ i < r.maxCores, ∀ d, r.devs i = some d → drvdata d = some r.addr

omit [DecidableEq Dev] in
theorem Known.clear {drvdata : Dev → Option ℕ} (hk : Known r drvdata) (i : ℕ) :
    Known (r.clear i) drvdata := by
  intro j hj b hb
  rw [RocketDevice.devs_clear] at hb
  exact hk j hj b (released hb).2

/-- The core that is probed knows the device, whatever it knew before. -/
theorem Known.claim {drvdata : Dev → Option ℕ} (hk : Known r drvdata) (i : ℕ) (d : Dev) :
    Known (r.claim i d) (Function.update drvdata d (some r.addr)) := by
  intro j hj b hb
  change Function.update drvdata d (some r.addr) b = some r.addr
  by_cases hbd : b = d
  · rw [hbd, Function.update_self]
  · rw [RocketDevice.devs_claim] at hb
    rw [Function.update_of_ne hbd]
    rcases claimed hb with ⟨_, he⟩ | ⟨_, hb⟩
    · exact absurd he hbd
    · exact hk j hj b hb

/-- The slots hold what the driver core has bound, each device where its probe put it. -/
def Recorded (r : RocketDevice Dev) (given : Dev → Option ℕ) : Prop :=
  ∀ d i, given d = some i ↔ i < r.maxCores ∧ r.devs i = some d

omit [DecidableEq Dev] in
/-- A new device holds no core, and while there was none no core was bound. -/
theorem Recorded.init {given : Dev → Option ℕ} (available addr : ℕ) (h : ∀ d, given d = none) :
    Recorded (rocketDeviceInit available addr) given := by
  intro d i
  rw [h d]
  constructor
  · intro hi
    cases hi
  · rintro ⟨-, hd⟩
    cases hd

theorem Recorded.claim {given : Dev → Option ℕ} (h : Recorded r given) (hi : i < r.maxCores)
    (hfree : r.devs i = none) (hd : given d = none) :
    Recorded (r.claim i d) (Function.update given d (some i)) := by
  intro e j
  rw [RocketDevice.devs_claim]
  by_cases hed : e = d
  · subst hed
    rw [Function.update_self]
    constructor
    · intro hj
      obtain rfl := Option.some.inj hj
      exact ⟨hi, Function.update_self ..⟩
    · rintro ⟨hj, he⟩
      rcases claimed he with ⟨rfl, -⟩ | ⟨-, he⟩
      · rfl
      · -- the device was in no slot before
        have hgiven := (h e j).mpr ⟨hj, he⟩
        rw [hd] at hgiven
        cases hgiven
  · rw [Function.update_of_ne hed, h e j]
    constructor
    · rintro ⟨hj, he⟩
      exact ⟨hj, stays he (by simp [hfree]) _⟩
    · rintro ⟨hj, he⟩
      rcases claimed he with ⟨-, rfl⟩ | ⟨-, he⟩
      · exact absurd rfl hed
      · exact ⟨hj, he⟩

theorem Recorded.clear {given : Dev → Option ℕ} (h : Recorded r given)
    (hdistinct : Distinct r.maxCores r.devs) (hi : i < r.maxCores) (hd : r.devs i = some d) :
    Recorded (r.clear i) (Function.update given d none) := by
  intro e j
  rw [RocketDevice.devs_clear]
  by_cases hed : e = d
  · subst hed
    rw [Function.update_self]
    constructor
    · intro hj
      cases hj
    · rintro ⟨hj, he⟩
      obtain ⟨hji, he⟩ := released he
      exact absurd (hdistinct j hj i hi e he hd) hji
  · rw [Function.update_of_ne hed, h e j]
    constructor
    · rintro ⟨hj, he⟩
      exact ⟨hj, stays he (by simpa [hd] using Ne.symm hed) _⟩
    · rintro ⟨hj, he⟩
      exact ⟨hj, (released he).2⟩

omit [DecidableEq Dev] in
theorem Recorded.none {given : Dev → Option ℕ} (h : Recorded r given)
    (h0 : occupied r.maxCores r.devs = 0) (d : Dev) : given d = none := by
  by_contra hsome
  obtain ⟨i, hi⟩ := Option.ne_none_iff_exists'.mp hsome
  obtain ⟨hlt, hd⟩ := (h d i).mp hi
  have hpos := occupied_pos_iff.mpr ⟨i, hlt, d, hd⟩
  omega

/-- Between calls there is a device only while a core is bound. -/
structure Wf (s : State Dev) : Prop where
  valid : ∀ r, s.rdev = some r → Valid r
  alive : ∀ r, s.rdev = some r → 0 < r.numCores
  known : ∀ r, s.rdev = some r → Known r s.drvdata
  recorded : ∀ r, s.rdev = some r → Recorded r s.given
  absent : s.rdev = none → ∀ d, s.given d = none

omit [DecidableEq Dev] in
theorem Wf.load : Wf (.load : State Dev) := by
  refine ⟨?_, ?_, ?_, ?_, fun _ _ => rfl⟩ <;>
    · intro r hr
      cases hr

omit [DecidableEq Dev] in
theorem Wf.of_rdev {drvdata given : Dev → Option ℕ} (hv : Valid r) (hpos : 0 < r.numCores)
    (hk : Known r drvdata) (hg : Recorded r given) :
    Wf (⟨some r, drvdata, given⟩ : State Dev) := by
  refine ⟨?_, ?_, ?_, ?_, ?_⟩
  · rintro _ ⟨⟩
    exact hv
  · rintro _ ⟨⟩
    exact hpos
  · rintro _ ⟨⟩
    exact hk
  · rintro _ ⟨⟩
    exact hg
  · intro hnone
    cases hnone

omit [DecidableEq Dev] in
theorem Wf.of_release {drvdata given : Dev → Option ℕ} (hv : Valid (r.clear i))
    (hk : Known (r.clear i) drvdata) (hg : Recorded (r.clear i) given) :
    Wf (⟨r.release i, drvdata, given⟩ : State Dev) := by
  unfold RocketDevice.release
  split_ifs with h0
  · have hcount := hv.numCores
    refine ⟨by simp, by simp, by simp, by simp, fun _ => hg.none ?_⟩
    omega
  · exact .of_rdev hv (Nat.pos_of_ne_zero h0) hk hg

theorem probeCore_wf {env : ProbeEnv} (hv : Valid r) (hmax : 0 < r.maxCores)
    (hk : Known r s.drvdata) (hg : Recorded r s.given) (hd : s.given d = none) :
    Wf (State.probed d (probeCore env d r s)) := by
  have hout : ∀ j < r.maxCores, r.devs j ≠ some d := by
    intro j hj hjd
    have hgiven := (hg d j).mpr ⟨hj, hjd⟩
    rw [hd] at hgiven
    cases hgiven
  unfold probeCore
  dsimp only
  cases hf : firstFree r.maxCores r.devs with
  | none =>
    have hfull := firstFree_none hf
    have hcount := hv.numCores
    refine .of_rdev hv (by omega) (fun j hj b hb => ?_) hg
    have hbd : b ≠ d := fun he => hout j hj (he ▸ hb)
    rw [Function.update_of_ne hbd]
    exact hk j hj b hb
  | some i =>
    obtain ⟨hi, hfree⟩ := firstFree_some hf
    have hclaim := hv.claim hi hfree hout
    have hknown := hk.claim i d
    have hgiven := hg.claim hi hfree hd
    cases env.coreInit with
    | none => exact .of_rdev hclaim (Nat.succ_pos _) hknown hgiven
    | some e =>
      have hself : (r.claim i d).devs i = some d := by
        rw [RocketDevice.devs_claim, Function.update_self]
      have hback := hgiven.clear hclaim.distinct hi hself
      rw [Function.update_idem, ← hd, Function.update_eq_self] at hback
      exact .of_release (hclaim.clear hi hself) (hknown.clear i) hback

theorem rocketProbe_wf {env : ProbeEnv} (h : Wf s) (hd : s.given d = none)
    (hpos : 0 < available) : Wf (State.probed d (rocketProbe available env d s)) := by
  unfold rocketProbe
  cases hr : s.rdev with
  | some r =>
    have hv := h.valid r hr
    have hmax : 0 < r.maxCores := by
      have hle := occupied_le r.maxCores r.devs
      have hcount := hv.numCores
      have halive := h.alive r hr
      omega
    exact probeCore_wf hv hmax (h.known r hr) (h.recorded r hr) hd
  | none =>
    dsimp only
    split_ifs
    · exact h
    · cases env.deviceInit with
      | error e => exact h
      | ok addr =>
        have hgone := h.absent hr
        refine probeCore_wf (.init available addr) hpos ?_ (.init available addr hgone) hd
        intro i _ b hb
        cases hb

/-- The slot of a core is found, whatever a device that is gone would answer. -/
theorem findCoreForDev_eq (h : Wf s) (hr : s.rdev = some r) (hi : i < r.maxCores)
    (hd : r.devs i = some d) (stale : Option ℕ) : findCoreForDev stale d s = some i := by
  have hfind := (h.valid r hr).distinct.findSlot hi hd
  simp only [findCoreForDev, hr, h.known r hr i hi d hd, if_true, hfind]

omit [DecidableEq Dev] in
/-- A device that is bound sits in the slot it was given. -/
theorem Wf.slot (h : Wf s) (hd : s.given d = some i) :
    ∃ r, s.rdev = some r ∧ i < r.maxCores ∧ r.devs i = some d := by
  cases hr : s.rdev with
  | none =>
    rw [h.absent hr d] at hd
    cases hd
  | some r => exact ⟨r, rfl, (h.recorded r hr d i).mp hd⟩

omit [DecidableEq Dev] in
theorem Wf.bound_iff (h : Wf s) (hr : s.rdev = some r) (d : Dev) :
    s.Bound d ↔ ∃ i < r.maxCores, r.devs i = some d := by
  unfold State.Bound
  rw [Option.isSome_iff_exists]
  exact exists_congr fun i => h.recorded r hr d i

theorem rocketRemove_eq (h : Wf s) (hr : s.rdev = some r) (hi : i < r.maxCores)
    (hd : r.devs i = some d) (stale : Option ℕ) :
    rocketRemove stale d s = { s with rdev := r.release i } := by
  simp only [rocketRemove, findCoreForDev_eq h hr hi hd stale, hr]

theorem rocketRemove_wf (h : Wf s) (hd : s.Bound d) (stale : Option ℕ) :
    Wf ((rocketRemove stale d s).removed d) := by
  obtain ⟨i, hgiven⟩ := Option.isSome_iff_exists.mp hd
  obtain ⟨r, hr, hi, hid⟩ := h.slot hgiven
  have hv := h.valid r hr
  rw [rocketRemove_eq h hr hi hid stale]
  exact .of_release (hv.clear hi hid) ((h.known r hr).clear i)
    ((h.recorded r hr).clear hv.distinct hi hid)

theorem Step.wf {op : Op Dev} (h : Wf s) (hs : Step available s op t) : Wf t := by
  obtain ⟨hadm, rfl⟩ := hs
  cases op with
  | probe env d => exact rocketProbe_wf h (by simpa [State.Bound] using hadm.1) hadm.2
  | remove stale d => exact rocketRemove_wf h hadm stale

theorem wf_of_reachable (h : Reachable (· = State.load) (Step available) s) : Wf s := by
  refine h.invariant ?_ fun _ _ _ hs hst => hst.wf hs
  rintro _ rfl
  exact .load

/-- What the rest of the driver takes for granted about the slots, which are held against what
the driver core has bound. -/
structure SlotsConsistent (s : State Dev) : Prop where
  count : ∀ r, s.rdev = some r →
    r.numCores = occupied r.maxCores r.devs ∧ r.numCores ≤ r.maxCores
  distinct : ∀ r, s.rdev = some r → Distinct r.maxCores r.devs
  index : ∀ r, s.rdev = some r → ∀ i < r.maxCores, ∀ d, r.devs i = some d →
    (r.cores i).index = i ∧ s.given d = some i
  found : ∀ d i, s.given d = some i → ∀ stale, findCoreForDev stale d s = some i
  present : s.rdev.isSome ↔ ∃ d, s.Bound d
  jobOpen : ∀ r, s.rdev = some r → (rocketJobOpen r).length ≤ r.numCores

theorem Wf.slotsConsistent (h : Wf s) : SlotsConsistent s := by
  refine ⟨fun r hr => ?_, fun r hr => (h.valid r hr).distinct, fun r hr i hi d hd => ?_,
    fun d i hd => ?_, ?_, fun r hr => ?_⟩
  · have hcount := (h.valid r hr).numCores
    have hle := occupied_le r.maxCores r.devs
    omega
  · exact ⟨(h.valid r hr).index i d hd, (h.recorded r hr d i).mpr ⟨hi, hd⟩⟩
  · obtain ⟨r, hr, hi, hid⟩ := h.slot hd
    exact findCoreForDev_eq h hr hi hid
  · constructor
    · intro hsome
      obtain ⟨r, hr⟩ := Option.isSome_iff_exists.mp hsome
      have hpos : 0 < occupied r.maxCores r.devs := (h.valid r hr).numCores ▸ h.alive r hr
      obtain ⟨i, hi, d, hd⟩ := occupied_pos_iff.mp hpos
      exact ⟨d, (h.bound_iff hr d).mpr ⟨i, hi, hd⟩⟩
    · rintro ⟨d, hd⟩
      obtain ⟨i, hgiven⟩ := Option.isSome_iff_exists.mp hd
      obtain ⟨r, hr, -⟩ := h.slot hgiven
      rw [hr]
      rfl
  · have hlen := occupied_eq_length r.maxCores r.devs
    rw [(h.valid r hr).numCores, hlen]
    exact Nat.le_refl _

/-- However cores come and go, the slots stay consistent. -/
theorem slotsConsistent_of_reachable (h : Reachable (· = State.load) (Step available) s) :
    SlotsConsistent s :=
  (wf_of_reachable h).slotsConsistent

instance (s : State Dev) (d : Dev) : Decidable (s.Bound d) :=
  inferInstanceAs (Decidable ((s.given d).isSome = true))

instance (op : Op Dev) (s : State Dev) : Decidable (op.Admissible available s) :=
  match op with
  | .probe _ _ => inferInstanceAs (Decidable (_ ∧ _))
  | .remove _ _ => inferInstanceAs (Decidable (s.Bound _))

def Op.exec (available : ℕ) (s : State Dev) (op : Op Dev) : Option (State Dev) :=
  if op.Admissible available s then some (op.run available s) else none

theorem step_of_exec {op : Op Dev} (h : op.exec available s = some t) : Step available s op t := by
  unfold Op.exec at h
  split_ifs at h with hadm
  exact ⟨hadm, (Option.some.inj h).symm⟩

theorem reachable_of_exec {ops : List (Op Dev)} (h : ops.foldlM (Op.exec available) s = some t) :
    Reachable (· = s) (Step available) t :=
  .foldlM (fun _ _ _ => step_of_exec) (.start rfl) h

/-- Two cores are bound, each in a slot of its own. -/
def bindTwo : List (Op ℕ) := [.probe ⟨true, .ok 1, none⟩ 10, .probe ⟨true, .ok 2, none⟩ 11]

/-- The first one goes and fails to come back, and a third one takes its slot. -/
def rebind : List (Op ℕ) :=
  [.remove none 10, .probe ⟨true, .ok 3, some .enomem⟩ 10, .probe ⟨true, .ok 4, none⟩ 12]

def givenTo (s : State ℕ) : Option ℕ × Option ℕ × Option ℕ := (s.given 10, s.given 11, s.given 12)

/-- Slot 0 was the first core's, and is the third one's in the end. -/
theorem slotsConsistent_rebind :
    ∃ s t : State ℕ, Reachable (· = .load) (Step 2) s ∧ givenTo s = (some 0, some 1, none) ∧
      Reachable (· = s) (Step 2) t ∧ givenTo t = (none, some 1, some 0) ∧
      t.rdev.map RocketDevice.numCores = some 2 ∧ SlotsConsistent s ∧ SlotsConsistent t := by
  have hfirst : (bindTwo.foldlM (Op.exec 2) State.load).map givenTo =
      some (some 0, some 1, none) := by
    decide
  obtain ⟨s, hs, hgiven⟩ := Option.map_eq_some_iff.mp hfirst
  have hthen : ((bindTwo.foldlM (Op.exec 2) State.load).bind (rebind.foldlM (Op.exec 2) ·)).map
      (fun t => (givenTo t, t.rdev.map RocketDevice.numCores)) =
        some ((none, some 1, some 0), some 2) := by
    decide
  rw [hs, Option.bind_some] at hthen
  obtain ⟨t, ht, hend⟩ := Option.map_eq_some_iff.mp hthen
  have hreach := reachable_of_exec hs
  have hreach' := reachable_of_exec ht
  exact ⟨s, t, hreach, hgiven, hreach', congrArg Prod.fst hend, congrArg Prod.snd hend,
    slotsConsistent_of_reachable hreach, slotsConsistent_of_reachable (hreach.trans hreach')⟩

end RocketNpu.Bind
