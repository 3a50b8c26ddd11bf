import Mathlib.Algebra.Order.Group.Int
import RocketNpu.Lib.Runs
import RocketNpu.Volt.Probe

namespace RocketNpu.Volt
open Runs

/-- A voltage that was asked for, and what the module had read when it was loaded. -/
structure Request where
  orig : ℤ
  uv : ℤ
deriving DecidableEq, Repr

/-- The rail, and the references the module has taken on nodes, devices and regulators and not
given back. -/
structure World where
  nodes : ℤ
  devices : ℤ
  regulators : ℤ
  rail : ℤ
  /-- Latest first. -/
  asked : List Request
deriving DecidableEq, Repr

namespace World

def ofFindNode (w : World) : World := { w with nodes := w.nodes + 1 }

def ofNodePut (w : World) : World := { w with nodes := w.nodes - 1 }

def ofFindDevice (w : World) : World := { w with devices := w.devices + 1 }

def platformDevicePut (w : World) : World := { w with devices := w.devices - 1 }

def regulatorGet (w : World) : World := { w with regulators := w.regulators + 1 }

def regulatorPut (w : World) : World := { w with regulators := w.regulators - 1 }

def regulatorSetVoltage (env : Env) (r : Request) (w : World) : World :=
  { w with rail := (env.set r.uv w.rail).2, asked := r :: w.asked }

/-- The labels `err_reg` and `err_pdev`. -/
def errReg (w : World) : World := w.regulatorPut.platformDevicePut

/-- The label `err_restore`. -/
def errRestore (env : Env) (p : Probe) (w : World) : World :=
  (w.regulatorSetVoltage env ⟨p.origUv, p.origUv⟩).errReg

end World

/-- `raiseRail`, with what it does to the world. -/
def raise (env : Env) (p : Probe) (w : World) : ℤ × Probe × World :=
  if p.uv < voltFloor ∨ voltCap < p.uv then (-22, p.errReg, w.errReg)
  else if p.uv < p.origUv then (-22, p.errReg, w.errReg)
  else
    let w' := w.regulatorSetVoltage env ⟨p.origUv, p.uv⟩
    if (env.set p.uv w.rail).1 ≠ 0 then ((env.set p.uv w.rail).1, p.errReg, w'.errReg)
    else if w'.rail < 0 then (w'.rail, p.errReg, w'.errRestore env p)
    else if voltCap < w'.rail then (-34, p.errReg, w'.errRestore env p)
    else (0, p, w')

/-- `npu_volt_probe_init`, with what it does to the world. -/
def insmod (env : Env) (uv : ℤ) (w : World) : ℤ × Probe × World :=
  let p : Probe := ⟨uv, false, false, 0⟩
  if env.node = false then (-19, p, w)
  else if env.device = false then (-19, p, w.ofFindNode.ofNodePut)
  else
    let w := w.ofFindNode.ofFindDevice.ofNodePut
    match env.regulatorGet with
    | some ret => (ret, p, w.platformDevicePut)
    | none =>
      let w := w.regulatorGet
      let p := { p with npuReg := true, npuPdev := true, origUv := w.rail }
      if w.rail < 0 then (w.rail, p.errReg, w.errReg)
      else if uv = 0 then (0, p, w)
      else raise env p w

/-- `npu_volt_probe_exit`, with what it does to the world. -/
def rmmod (env : Env) (p : Probe) (w : World) : World :=
  let w :=
    if p.npuReg = true then
      (if p.uv ≠ 0 ∧ 0 < p.origUv then w.regulatorSetVoltage env ⟨p.origUv, p.origUv⟩
        else w).regulatorPut
    else w
  if p.npuPdev = true then w.platformDevicePut else w

theorem raise_eq (env : Env) (p : Probe) (w : World) :
    raiseRail env p w.rail =
      ((raise env p w).1, (raise env p w).2.1, (raise env p w).2.2.rail) := by
  unfold raiseRail raise
  dsimp only [World.regulatorSetVoltage]
  split_ifs <;> rfl

/-- The return value, the data of the module and the rail are those of `npuVoltProbeInit`. -/
theorem insmod_eq (env : Env) (uv : ℤ) (w : World) :
    npuVoltProbeInit env uv w.rail =
      ((insmod env uv w).1, (insmod env uv w).2.1, (insmod env uv w).2.2.rail) := by
  unfold npuVoltProbeInit insmod
  dsimp only
  by_cases hnode : env.node = false
  · simp only [hnode, if_true]
  · by_cases hdevice : env.device = false
    · simp only [hnode, hdevice, if_true]
      rfl
    · rw [if_neg hnode, if_neg hdevice, if_neg hnode, if_neg hdevice]
      cases env.regulatorGet with
      | some ret => rfl
      | none =>
        have hraise := raise_eq env ⟨uv, true, true, w.rail⟩
          w.ofFindNode.ofFindDevice.ofNodePut.regulatorGet
        have hrail : w.ofFindNode.ofFindDevice.ofNodePut.regulatorGet.rail = w.rail := rfl
        rw [hrail] at hraise
        by_cases hneg : w.rail < 0
        · simp only [hrail, hneg, if_true]
          rfl
        · by_cases huv : uv = 0
          · simp only [hrail, hneg, huv, if_true, if_false]
          · simp only [hrail, hneg, huv, if_false]
            exact hraise

theorem rmmod_rail (env : Env) (p : Probe) (w : World) :
    (rmmod env p w).rail = npuVoltProbeExit env p w.rail := by
  unfold rmmod npuVoltProbeExit
  by_cases hreg : p.npuReg = true
  · by_cases hset : p.uv ≠ 0 ∧ 0 < p.origUv <;> by_cases hpdev : p.npuPdev = true <;>
      simp [hreg, hset, hpdev, World.regulatorSetVoltage, World.regulatorPut,
        World.platformDevicePut]
  · by_cases hpdev : p.npuPdev = true <;> simp [hreg, hpdev, World.platformDevicePut]

/-- The world, and the module's data while it is loaded. -/
structure Rail where
  world : World
  probe : Option Probe
deriving DecidableEq, Repr

/-- Calls of the module, and changes of the rail by its other consumers. -/
inductive Op where
  | insmod (env : Env) (uv : ℤ)
  | rmmod (env : Env)
  | other (rail : ℤ)

/-- A module whose init fails is not loaded. -/
def Rail.load (env : Env) (uv : ℤ) (x : Rail) : Rail :=
  match insmod env uv x.world with
  | (ret, p, w) => ⟨w, if ret = 0 then some p else none⟩

def Op.run : Op → Rail → Option Rail
  | .insmod env uv, x =>
    -- an error pointer is not an error code of zero
    if x.probe = none ∧ env.regulatorGet ≠ some 0 then some (x.load env uv) else none
  | .rmmod env, x => x.probe.map fun p => ⟨Volt.rmmod env p x.world, none⟩
  | .other rail, x => some { x with world.rail := rail }

def Step (x : Rail) (op : Op) (y : Rail) : Prop := op.run x = some y

def Booted (x : Rail) : Prop := ∃ rail, x = ⟨⟨0, 0, 0, rail, []⟩, none⟩

/-- The request is no lower than what was read, and within the limits unless it takes the rail
back to that. -/
def Request.Bounded (r : Request) : Prop :=
  0 ≤ r.orig ∧ r.orig ≤ r.uv ∧ r.uv ≤ voltCap ∧ (voltFloor ≤ r.uv ∨ r.uv = r.orig)

/-- What a loaded module knows. -/
structure Probe.Ok (p : Probe) : Prop where
  npuReg : p.npuReg = true
  npuPdev : p.npuPdev = true
  orig : 0 ≤ p.origUv
  raised : p.uv ≠ 0 → p.origUv ≤ p.uv ∧ voltFloor ≤ p.uv ∧ p.uv ≤ voltCap

structure Accounted (x : Rail) : Prop where
  nodes : x.world.nodes = 0
  devices : x.world.devices = if x.probe.isSome then 1 else 0
  regulators : x.world.regulators = if x.probe.isSome then 1 else 0
  loaded : ∀ p, x.probe = some p → p.Ok
  asked : ∀ r ∈ x.world.asked, r.Bounded

/-- How much the reference counts of `w` lie above those of `v`, where both were asked for only
what is within bounds. -/
structure Takes (v w : World) (k : ℤ) : Prop where
  nodes : w.nodes = v.nodes
  devices : w.devices = v.devices + k
  regulators : w.regulators = v.regulators + k
  asked : (∀ r ∈ v.asked, r.Bounded) → ∀ r ∈ w.asked, r.Bounded

theorem Takes.set {v w : World} {k : ℤ} (h : Takes v w k) (env : Env) {r : Request}
    (hr : r.Bounded) : Takes v (w.regulatorSetVoltage env r) k := by
  refine ⟨h.nodes, h.devices, h.regulators, fun hv q hq => ?_⟩
  rcases List.mem_cons.mp hq with rfl | hq
  · exact hr
  · exact h.asked hv q hq

theorem Takes.errReg {v w : World} (h : Takes v w 1) : Takes v w.errReg 0 := by
  refine ⟨h.nodes, ?_, ?_, h.asked⟩
  · have := h.devices
    show w.devices - 1 = _
    omega
  · have := h.regulators
    show w.regulators - 1 = _
    omega

theorem Request.bounded_restore {o uv : ℤ} (h0 : 0 ≤ o) (hle : o ≤ uv) (hcap : uv ≤ voltCap) :
    (⟨o, o⟩ : Request).Bounded :=
  ⟨h0, le_rfl, hle.trans hcap, .inr rfl⟩

/-- The voltage asked for is one the module lets through. -/
structure Probe.Lets (p : Probe) : Prop where
  floor : voltFloor ≤ p.uv
  cap : p.uv ≤ voltCap
  up : p.origUv ≤ p.uv

/-- What becomes of a voltage that is asked for: it is not let through, the rail refuses it, the
rail ends up outside the limits and is taken back, or it is set. -/
inductive Raise (env : Env) (p : Probe) (w : World) : ℤ × Probe × World → Prop where
  | refused {ret : ℤ} : ret ≠ 0 → Raise env p w (ret, p.errReg, w.errReg)
  | failed : p.Lets → (env.set p.uv w.rail).1 ≠ 0 →
      Raise env p w ((env.set p.uv w.rail).1, p.errReg,
        (w.regulatorSetVoltage env ⟨p.origUv, p.uv⟩).errReg)
  | restored {ret : ℤ} : p.Lets → (env.set p.uv w.rail).1 = 0 →
      (env.set p.uv w.rail).2 < 0 ∨ voltCap < (env.set p.uv w.rail).2 → ret ≠ 0 →
      Raise env p w (ret, p.errReg, (w.regulatorSetVoltage env ⟨p.origUv, p.uv⟩).errRestore env p)
  | set : p.Lets → (env.set p.uv w.rail).1 = 0 →
      Raise env p w (0, p, w.regulatorSetVoltage env ⟨p.origUv, p.uv⟩)

theorem raise_cases (env : Env) (p : Probe) (w : World) : Raise env p w (raise env p w) := by
  unfold raise
  dsimp only
  by_cases hrange : p.uv < voltFloor ∨ voltCap < p.uv
  · rw [if_pos hrange]
    exact .refused (by simp)
  rw [if_neg hrange]
  by_cases hlow : p.uv < p.origUv
  · rw [if_pos hlow]
    exact .refused (by simp)
  rw [if_neg hlow]
  obtain ⟨hfloor, hcap⟩ := not_or.mp hrange
  have hlets : p.Lets := ⟨not_lt.mp hfloor, not_lt.mp hcap, not_lt.mp hlow⟩
  by_cases hret : (env.set p.uv w.rail).1 = 0
  · rw [if_neg (not_not.mpr hret)]
    split_ifs with hneg hhigh
    · exact .restored hlets hret (.inl hneg) hneg.ne
    · exact .restored hlets hret (.inr hhigh) (by simp)
    · exact .set hlets hret
  · rw [if_pos hret]
    exact .failed hlets hret

/-- A load either gives everything back, or keeps one reference of each kind. -/
theorem raise_takes {env : Env} {p : Probe} {v w : World} (h : Takes v w 1) (h0 : 0 ≤ p.origUv)
    (hreg : p.npuReg = true) (hpdev : p.npuPdev = true) :
    (raise env p w).1 ≠ 0 ∧ Takes v (raise env p w).2.2 0 ∨
      (raise env p w).1 = 0 ∧ (raise env p w).2.1.Ok ∧ Takes v (raise env p w).2.2 1 := by
  have hset (hl : p.Lets) : Takes v (w.regulatorSetVoltage env ⟨p.origUv, p.uv⟩) 1 :=
    h.set env ⟨h0, hl.up, hl.cap, .inl hl.floor⟩
  have hcases := raise_cases env p w
  generalize raise env p w = r at hcases
  cases hcases with
  | refused hret => exact .inl ⟨hret, h.errReg⟩
  | failed hl hret => exact .inl ⟨hret, (hset hl).errReg⟩
  | restored hl _ _ hret =>
    exact .inl ⟨hret, ((hset hl).set env (Request.bounded_restore h0 hl.up hl.cap)).errReg⟩
  | set hl _ => exact .inr ⟨rfl, ⟨hreg, hpdev, h0, fun _ => ⟨hl.up, hl.floor, hl.cap⟩⟩, hset hl⟩

/-- The world once device and regulator are held. -/
def World.took (w : World) : World := w.ofFindNode.ofFindDevice.ofNodePut.regulatorGet

/-- What becomes of a load: it fails before it has read the rail, it cannot read it, it only reads
it, or it asks for a voltage. -/
inductive Load (env : Env) (uv : ℤ) (w : World) : ℤ × Probe × World → Prop where
  | failed {ret : ℤ} : ret ≠ 0 → Load env uv w (ret, ⟨uv, false, false, 0⟩, w)
  | unreadable : w.rail < 0 →
      Load env uv w (w.rail, (⟨uv, true, true, w.rail⟩ : Probe).errReg, w.took.errReg)
  | readOnly : 0 ≤ w.rail → uv = 0 → Load env uv w (0, ⟨uv, true, true, w.rail⟩, w.took)
  | raised : 0 ≤ w.rail → uv ≠ 0 → Load env uv w (raise env ⟨uv, true, true, w.rail⟩ w.took)

theorem insmod_cases {env : Env} (henv : env.regulatorGet ≠ some 0) (uv : ℤ) (w : World) :
    Load env uv w (insmod env uv w) := by
  unfold insmod
  dsimp only
  by_cases hnode : env.node = false
  · rw [if_pos hnode]
    exact .failed (by simp)
  rw [if_neg hnode]
  by_cases hdevice : env.device = false
  · rw [if_pos hdevice]
    have hput : w.ofFindNode.ofNodePut = w := by simp [World.ofFindNode, World.ofNodePut]
    rw [hput]
    exact .failed (by simp)
  rw [if_neg hdevice]
  cases hget : env.regulatorGet with
  | some ret =>
    have hput : w.ofFindNode.ofFindDevice.ofNodePut.platformDevicePut = w := by
      simp [World.ofFindNode, World.ofFindDevice, World.ofNodePut, World.platformDevicePut]
    dsimp only
    rw [hput]
    exact .failed fun h0 => henv (h0 ▸ hget)
  | none =>
    show Load env uv w (if w.rail < 0 then _ else if uv = 0 then _ else _)
    split_ifs with hneg huv
    · exact .unreadable hneg
    · exact .readOnly (not_lt.mp hneg) huv
    · exact .raised (not_lt.mp hneg) huv

theorem insmod_takes {env : Env} (henv : env.regulatorGet ≠ some 0) (uv : ℤ) (w : World) :
    (insmod env uv w).1 ≠ 0 ∧ Takes w (insmod env uv w).2.2 0 ∨
      (insmod env uv w).1 = 0 ∧ (insmod env uv w).2.1.Ok ∧ Takes w (insmod env uv w).2.2 1 := by
  have htook : Takes w w.took 1 := by
    refine ⟨?_, rfl, rfl, fun h => h⟩
    simp [World.took, World.ofFindNode, World.ofFindDevice, World.ofNodePut, World.regulatorGet]
  have hcases := insmod_cases henv uv w
  generalize insmod env uv w = r at hcases
  cases hcases with
  | failed hret => exact .inl ⟨hret, rfl, by simp, by simp, fun h => h⟩
  | unreadable hneg => exact .inl ⟨hneg.ne, htook.errReg⟩
  | readOnly hpos huv =>
    exact .inr ⟨rfl, ⟨rfl, rfl, hpos, fun h => absurd huv h⟩, htook⟩
  | raised hpos _ => exact raise_takes htook hpos rfl rfl

theorem Accounted.load {x : Rail} (h : Accounted x) (hx : x.probe = none) {env : Env}
    (henv : env.regulatorGet ≠ some 0) (uv : ℤ) : Accounted (x.load env uv) := by
  have hdevices := h.devices
  have hregulators := h.regulators
  rw [hx] at hdevices hregulators
  unfold Rail.load
  rcases insmod_takes henv uv x.world with ⟨hret, ht⟩ | ⟨hret, hok, ht⟩
  · simp only [hret, if_false]
    refine ⟨ht.nodes.trans h.nodes, ?_, ?_, by simp, ht.asked h.asked⟩
    · rw [ht.devices, hdevices]
      rfl
    · rw [ht.regulators, hregulators]
      rfl
  · simp only [hret, if_true]
    refine ⟨ht.nodes.trans h.nodes, ?_, ?_, ?_, ht.asked h.asked⟩
    · rw [ht.devices, hdevices]
      rfl
    · rw [ht.regulators, hregulators]
      rfl
    · rintro q ⟨⟩
      exact hok

theorem Accounted.unload {x : Rail} (h : Accounted x) {p : Probe} (hp : x.probe = some p)
    (env : Env) : Accounted ⟨rmmod env p x.world, none⟩ := by
  obtain ⟨hreg, hpdev, h0, hraised⟩ := h.loaded p hp
  have htook : Takes x.world x.world 0 := ⟨rfl, by omega, by omega, fun h => h⟩
  have hset : Takes x.world (if p.uv ≠ 0 ∧ 0 < p.origUv then
      x.world.regulatorSetVoltage env ⟨p.origUv, p.origUv⟩ else x.world) 0 := by
    split_ifs with hback
    · obtain ⟨hle, -, hcap⟩ := hraised hback.1
      exact htook.set env (Request.bounded_restore h0 hle hcap)
    · exact htook
  have hdevices : x.world.devices = 1 := by simp [h.devices, hp]
  have hregulators : x.world.regulators = 1 := by simp [h.regulators, hp]
  simp only [rmmod, hreg, hpdev, if_true]
  refine ⟨hset.nodes.trans h.nodes, ?_, ?_, by simp, hset.asked h.asked⟩
  · show World.devices _ - 1 = 0
    have := hset.devices
    dsimp only [World.regulatorPut] at *
    omega
  · show World.regulators _ - 1 = 0
    have := hset.regulators
    omega

theorem Accounted.step {x y : Rail} {op : Op} (h : Accounted x) (hs : Step x op y) :
    Accounted y := by
  cases op with
  | insmod env uv =>
    obtain ⟨⟨hx, henv⟩, rfl⟩ :
        (x.probe = none ∧ env.regulatorGet ≠ some 0) ∧ x.load env uv = y := by
      simpa [Step, Op.run] using hs
    exact h.load hx henv uv
  | rmmod env =>
    obtain ⟨p, hp, rfl⟩ := Option.map_eq_some_iff.mp hs
    exact h.unload hp env
  | other rail =>
    cases hs
    exact ⟨h.nodes, h.devices, h.regulators, h.loaded, h.asked⟩

theorem Accounted.booted {x : Rail} (h : Booted x) : Accounted x := by
  obtain ⟨rail, rfl⟩ := h
  exact ⟨rfl, rfl, rfl, by simp, by simp⟩

/-- Whatever fails, the module holds a device and a regulator while it is loaded and nothing
otherwise, and never asks for a voltage above `voltCap`, or below what it read when it was
loaded. -/
theorem requests_bounded {x : Rail} (h : Reachable Booted Step x) :
    x.world.nodes = 0 ∧ x.world.devices = (if x.probe.isSome then 1 else 0) ∧
      x.world.regulators = (if x.probe.isSome then 1 else 0) ∧
      ∀ r ∈ x.world.asked, r.Bounded := by
  have ha : Accounted x := h.invariant (fun _ => .booted) fun _ _ _ hx hs => hx.step hs
  exact ⟨ha.nodes, ha.devices, ha.regulators, ha.asked⟩

/-- A rail that goes where it is told, or stays when it refuses. -/
def Env.Obeys (env : Env) : Prop :=
  ∀ uv rail, (env.set uv rail).1 = 0 ∧ (env.set uv rail).2 = uv ∨
    (env.set uv rail).1 ≠ 0 ∧ (env.set uv rail).2 = rail

/-- Nobody else moves the rail, which goes back where it was read. -/
def Alone (_ : Rail) : Op → Prop
  | .insmod env _ => env.Obeys
  | .rmmod env => ∀ uv rail, env.set uv rail = (0, uv)
  | .other _ => False

/-- What the rail reads when it read `rail` before the module came. -/
def At (rail : ℤ) (x : Rail) : Prop :=
  match x.probe with
  | none => x.world.rail = rail
  | some p => p.npuReg = true ∧ p.origUv = rail ∧ x.world.rail = if p.uv = 0 then rail else p.uv

theorem At.raise {env : Env} (he : env.Obeys) {rail : ℤ} {p : Probe} {w : World}
    (hw : w.rail = rail) (hp : p.npuReg = true) (ho : p.origUv = rail)
    (huv : p.uv ≠ 0) :
    At rail ⟨(Volt.raise env p w).2.2,
      if (Volt.raise env p w).1 = 0 then some (Volt.raise env p w).2.1 else none⟩ := by
  have hcases := raise_cases env p w
  generalize Volt.raise env p w = r at hcases
  cases hcases with
  | refused hret =>
    simp only [hret, if_false]
    exact hw
  | failed _ hret =>
    simp only [hret, if_false]
    rcases he p.uv w.rail with ⟨h, -⟩ | ⟨-, h⟩
    · exact absurd h hret
    · exact h.trans hw
  | restored hl hret hout _ =>
    -- the rail did what it was told, which is within the limits
    have hcap := hl.cap
    have hfloor := hl.floor
    unfold voltFloor at hfloor
    rcases he p.uv w.rail with ⟨-, h⟩ | ⟨h, -⟩
    · omega
    · exact absurd hret h
  | set _ hret =>
    rcases he p.uv w.rail with ⟨-, h⟩ | ⟨h, -⟩
    · exact ⟨hp, ho, h.trans (if_neg huv).symm⟩
    · exact absurd hret h

theorem At.load {env : Env} (he : env.Obeys) {rail : ℤ} (h0 : 0 < rail) {x : Rail}
    (hx : x.world.rail = rail) (henv : env.regulatorGet ≠ some 0) (uv : ℤ) :
    At rail (x.load env uv) := by
  unfold Rail.load
  have hcases := insmod_cases henv uv x.world
  generalize insmod env uv x.world = r at hcases
  cases hcases with
  | failed hret =>
    simp only [hret, if_false]
    exact hx
  | unreadable hneg => omega
  | readOnly _ huv =>
    subst huv
    exact ⟨rfl, hx, hx⟩
  | raised _ huv => exact At.raise he hx rfl hx huv

/-- The module keeps the parameter it was loaded with. -/
theorem insmod_uv {env : Env} (henv : env.regulatorGet ≠ some 0) (uv : ℤ) (w : World) :
    (insmod env uv w).2.1.uv = uv := by
  have hcases := insmod_cases henv uv w
  generalize insmod env uv w = r at hcases
  cases hcases with
  | raised _ _ =>
    have hraise := raise_cases env ⟨uv, true, true, w.rail⟩ w.took
    generalize raise env ⟨uv, true, true, w.rail⟩ w.took = r at hraise
    cases hraise <;> rfl
  | _ => rfl

theorem At.unload {env : Env} (he : ∀ uv rail, env.set uv rail = (0, uv)) {rail : ℤ}
    (h0 : 0 < rail) {x : Rail} {p : Probe} (hx : At rail x) (hp : x.probe = some p) :
    At rail ⟨rmmod env p x.world, none⟩ := by
  unfold At at hx
  rw [hp] at hx
  obtain ⟨hreg, ho, hrail⟩ := hx
  show (rmmod env p x.world).rail = rail
  rw [rmmod_rail, npuVoltProbeExit, he]
  by_cases huv : p.uv = 0
  · rw [if_neg (by simp [huv]), hrail, if_pos huv]
  · rw [if_pos ⟨hreg, huv, ho ▸ h0⟩]
    exact ho

/-- Whenever the module is gone, the rail is back where it was before it came. -/
theorem rail_restored {rail : ℤ} (h0 : 0 < rail) {x : Rail}
    (h : Reachable (· = ⟨⟨0, 0, 0, rail, []⟩, none⟩) (restrict Step Alone) x)
    (hx : x.probe = none) : x.world.rail = rail := by
  have hat : At rail x := by
    refine h.invariant (I := At rail) ?_ ?_
    · rintro _ rfl
      rfl
    · intro x op y hat hs
      obtain ⟨hs, halone⟩ := hs
      cases op with
      | insmod env uv =>
        obtain ⟨⟨hx, henv⟩, rfl⟩ :
            (x.probe = none ∧ env.regulatorGet ≠ some 0) ∧ x.load env uv = y := by
          simpa [Step, Op.run] using hs
        have hrail : x.world.rail = rail := by simpa [At, hx] using hat
        exact At.load halone h0 hrail henv uv
      | rmmod env =>
        obtain ⟨p, hp, rfl⟩ := Option.map_eq_some_iff.mp hs
        exact hat.unload halone h0 hp
      | other rail => exact halone.elim
  simpa [At, hx] using hat

/-- A rail that takes every voltage asked for. -/
def Env.exact : Env := ⟨true, true, none, fun uv _ => (0, uv)⟩

def raisedWorld : World := ⟨0, 1, 1, 850000, [⟨800000, 850000⟩]⟩

def raisedProbe : Probe := ⟨850000, true, true, 800000⟩

theorem step_insmod :
    Step ⟨⟨0, 0, 0, 800000, []⟩, none⟩ (.insmod .exact 850000) ⟨raisedWorld, some raisedProbe⟩ := by
  show Op.run _ _ = _
  rfl

/-- The module is loaded to raise the rail. -/
theorem requests_bounded_raised :
    raisedWorld.regulators = 1 ∧ ∀ r ∈ raisedWorld.asked, r.Bounded := by
  have h0 : Reachable Booted Step ⟨⟨0, 0, 0, 800000, []⟩, none⟩ := .start ⟨800000, rfl⟩
  obtain ⟨-, -, hregulators, hasked⟩ := requests_bounded (h0.step step_insmod)
  exact ⟨hregulators, hasked⟩

/-- And unloaded again. -/
theorem rail_restored_raised : (rmmod .exact raisedProbe raisedWorld).rail = 800000 := by
  have h0 : Reachable (· = (⟨⟨0, 0, 0, 800000, []⟩, none⟩ : Rail)) (restrict Step Alone)
      ⟨⟨0, 0, 0, 800000, []⟩, none⟩ := .start rfl
  have hobeys : Env.exact.Obeys := fun _ _ => .inl ⟨rfl, rfl⟩
  have hrmmod : Step ⟨raisedWorld, some raisedProbe⟩ (.rmmod .exact)
      ⟨rmmod .exact raisedProbe raisedWorld, none⟩ := rfl
  have h2 := (h0.step ⟨step_insmod, hobeys⟩).step ⟨hrmmod, fun _ _ => rfl⟩
  exact rail_restored (by decide) h2 rfl

end RocketNpu.Volt
