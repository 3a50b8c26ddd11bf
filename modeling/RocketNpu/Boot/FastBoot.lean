import RocketNpu.Devfreq.Ceiling
import RocketNpu.Tools.Sweep
import RocketNpu.Volt.Lifecycle

namespace RocketNpu.Boot
open Runs Devfreq

/-- The builds of the `rocket` module: the one of the running kernel, and this driver. -/
inductive Build where
  | stock | devfreq
deriving DecidableEq, Repr

inductive Governor where
  | userspace | simpleOndemand | other
deriving DecidableEq, Repr

/-- The files of the NPU under `/sys/class/devfreq`. -/
structure Sysfs where
  range : Tools.Range
  governor : Governor
deriving DecidableEq, Repr

structure Machine where
  rocket : Option Build
  /-- There while this driver's devfreq device is registered. -/
  sysfs : Option Sysfs
  volt : Volt.Rail
  /-- Where the NPU's interrupt is handled, once that is set. -/
  irqCpu : Option ℕ
  /-- `cpu-sleep` of `cpu6` is turned off. -/
  sleepOff : Bool
  /-- The CPU policies whose governor is `performance`. -/
  performance : ℕ → Bool

/-- How the commands of the script end. -/
structure BootEnv where
  vermagic : Bool
  rmmod : Bool
  insmod : Bool
  /-- What the freshly loaded driver puts under `/sys`, if its devfreq device is registered. -/
  registered : Option Sysfs
  modprobe : Bool
  rmmodVolt : Bool
  voltExit : Volt.Env
  volt : Volt.Env
  irq : Bool
  affinity : Bool
  sleep : Bool
  minFreq : Bool
  maxFreq : Bool
  governor : Bool
  policy : ℕ → Bool

/-- `rmmod rocket`. -/
def rmmodRocket (env : BootEnv) (m : Machine) : Machine :=
  if m.rocket.isSome ∧ env.rmmod = true then { m with rocket := none, sysfs := none } else m

/-- `insmod` of this driver, which is refused while any build is loaded. -/
def insmodRocket (env : BootEnv) (m : Machine) : Bool × Machine :=
  if m.rocket.isNone ∧ env.insmod = true then
    (true, { m with rocket := some .devfreq, sysfs := env.registered })
  else (false, m)

/-- `modprobe rocket`, which does nothing while a build is loaded. -/
def modprobeRocket (env : BootEnv) (m : Machine) : Machine :=
  if m.rocket.isNone ∧ env.modprobe = true then { m with rocket := some .stock, sysfs := none }
  else m

/-- `rmmod npu_volt_probe`. -/
def rmmodVolt (env : BootEnv) (x : Volt.Rail) : Volt.Rail :=
  match x.probe, env.rmmodVolt with
  | some p, true => ⟨Volt.rmmod env.voltExit p x.world, none⟩
  | _, _ => x

/-- `insmod npu_volt_probe.ko uv=850000`, which is refused while the module is loaded. -/
def insmodVolt (env : BootEnv) (x : Volt.Rail) : Volt.Rail :=
  if x.probe.isSome then x else x.load env.volt 850000

/-- The script from step 4 on. -/
def tune (env : BootEnv) (m : Machine) : Machine :=
  let write (ok : Bool) (f : Sysfs → Sysfs) (s : Option Sysfs) := if ok then s.map f else s
  { m with
    irqCpu := if env.irq = true ∧ env.affinity = true then some 6 else m.irqCpu
    sleepOff := m.sleepOff || env.sleep
    sysfs := write env.governor (fun s => { s with governor := .simpleOndemand })
      (write env.maxFreq (fun s => { s with range.max := 1000000000 })
        (write env.minFreq (fun s => { s with range.min := 200000000 }) m.sysfs))
    performance := fun p => m.performance p || env.policy p }

/-- `npu-fast-boot.sh`, with its exit status. -/
def npuFastBoot (env : BootEnv) (m : Machine) : ℕ × Machine :=
  if env.vermagic = false then (1, m)
  else
    match insmodRocket env (rmmodRocket env m) with
    | (false, m) => (1, modprobeRocket env m)
    | (true, m) => (0, tune env { m with volt := insmodVolt env (rmmodVolt env m.volt) })

/-- Everything but the driver is as it was. -/
structure Untouched (m m' : Machine) : Prop where
  volt : m'.volt = m.volt
  irqCpu : m'.irqCpu = m.irqCpu
  sleepOff : m'.sleepOff = m.sleepOff
  performance : m'.performance = m.performance

/-- Giving up leaves the driver that was loaded, or brings the stock one back unless that cannot
be loaded either. -/
structure GaveUp (env : BootEnv) (m m' : Machine) : Prop extends Untouched m m' where
  driver : m'.rocket = m.rocket ∧ m'.sysfs = m.sysfs ∨ m'.rocket = some .stock ∧ m'.sysfs = none ∨
    m'.rocket = none ∧ m'.sysfs = none ∧ env.modprobe = false

theorem rmmodRocket_cases (env : BootEnv) (m : Machine) :
    rmmodRocket env m = m ∨ rmmodRocket env m = { m with rocket := none, sysfs := none } := by
  unfold rmmodRocket
  split_ifs
  · exact .inr rfl
  · exact .inl rfl

theorem modprobeRocket_gaveUp (env : BootEnv) (m : Machine) :
    GaveUp env m (modprobeRocket env (rmmodRocket env m)) := by
  unfold modprobeRocket
  rcases rmmodRocket_cases env m with h | h
  · rw [h]
    split_ifs
    · exact ⟨⟨rfl, rfl, rfl, rfl⟩, .inr (.inl ⟨rfl, rfl⟩)⟩
    · exact ⟨⟨rfl, rfl, rfl, rfl⟩, .inl ⟨rfl, rfl⟩⟩
  · rw [h]
    split_ifs with hmod
    · exact ⟨⟨rfl, rfl, rfl, rfl⟩, .inr (.inl ⟨rfl, rfl⟩)⟩
    · refine ⟨⟨rfl, rfl, rfl, rfl⟩, .inr (.inr ⟨rfl, rfl, ?_⟩)⟩
      simpa using hmod

/-- The script gives up, or this driver is loaded and everything else is tried. -/
theorem npuFastBoot_cases (env : BootEnv) (m : Machine) :
    (npuFastBoot env m).1 = 1 ∧ GaveUp env m (npuFastBoot env m).2 ∨
      npuFastBoot env m = (0, tune env { rmmodRocket env m with
        rocket := some .devfreq
        sysfs := env.registered
        volt := insmodVolt env (rmmodVolt env m.volt) }) := by
  have hvolt : (rmmodRocket env m).volt = m.volt := by
    rcases rmmodRocket_cases env m with h | h <;> rw [h]
  unfold npuFastBoot
  by_cases hmagic : env.vermagic = false
  · rw [if_pos hmagic]
    exact .inl ⟨rfl, ⟨rfl, rfl, rfl, rfl⟩, .inl ⟨rfl, rfl⟩⟩
  · rw [if_neg hmagic]
    unfold insmodRocket
    by_cases hins : (rmmodRocket env m).rocket.isNone ∧ env.insmod = true
    · rw [if_pos hins, ← hvolt]
      exact .inr rfl
    · rw [if_neg hins]
      exact .inl ⟨rfl, modprobeRocket_gaveUp env m⟩

/-- After the module was taken out, and if that works, put in again, the rail is where the module
left it. -/
theorem volt_at {env : BootEnv} {rail : ℤ} (h0 : 0 < rail) {x : Volt.Rail} (hat : Volt.At rail x)
    (hexit : ∀ uv r, env.voltExit.set uv r = (0, uv)) (hobeys : env.volt.Obeys)
    (hget : env.volt.regulatorGet ≠ some 0) :
    Volt.At rail (insmodVolt env (rmmodVolt env x)) := by
  have hout : Volt.At rail (rmmodVolt env x) := by
    unfold rmmodVolt
    split
    · next p hp _ => exact hat.unload hexit h0 hp
    · exact hat
  unfold insmodVolt
  split_ifs with hloaded
  · exact hout
  · have hnone : (rmmodVolt env x).probe = none := by simpa using hloaded
    have hrail : (rmmodVolt env x).world.rail = rail := by simpa [Volt.At, hnone] using hout
    exact Volt.At.load hobeys h0 hrail hget 850000

theorem volt_raised {env : BootEnv} {rail : ℤ} {x : Volt.Rail}
    (hat : Volt.At rail (insmodVolt env (rmmodVolt env x)))
    (hget : env.volt.regulatorGet ≠ some 0) (hx : x.probe = none ∨ env.rmmodVolt = true)
    (hloaded : (insmodVolt env (rmmodVolt env x)).probe.isSome) :
    (insmodVolt env (rmmodVolt env x)).world.rail = 850000 := by
  have hout : (rmmodVolt env x).probe = none := by
    unfold rmmodVolt
    rcases hx with hx | hx
    · simp [hx]
    · rw [hx]
      split
      · rfl
      · next hcase =>
        by_contra hne
        obtain ⟨p, hp⟩ := Option.ne_none_iff_exists'.mp hne
        exact hcase p hp rfl
  obtain ⟨p, hp⟩ := Option.isSome_iff_exists.mp hloaded
  have hload : insmodVolt env (rmmodVolt env x) = (rmmodVolt env x).load env.volt 850000 := by
    simp [insmodVolt, hout]
  have huv : p.uv = 850000 := by
    rw [hload, Volt.Rail.load] at hp
    have hparam := Volt.insmod_uv hget 850000 (rmmodVolt env x).world
    dsimp only at hp
    split_ifs at hp
    rw [← Option.some.inj hp]
    exact hparam
  simp only [Volt.At, hp] at hat
  rw [hat.2.2, huv]
  rfl

/-- The script gives up and leaves everything but the driver alone, or it loads this driver. Then
the rail reads what the driver asks for its highest rates if the voltage module could be loaded,
and if it is not loaded, no use of the driver on a rail that nobody else raises takes the clock
above `rocketHighRate`. -/
theorem npuFastBoot_capped {env : BootEnv} {m : Machine} {rail : ℤ} (h0 : 0 < rail)
    (hrail : rail < rocketVoltForHigh) (hat : Volt.At rail m.volt)
    (hexit : ∀ uv r, env.voltExit.set uv r = (0, uv)) (hobeys : env.volt.Obeys)
    (hget : env.volt.regulatorGet ≠ some 0) :
    (npuFastBoot env m).1 = 1 ∧ GaveUp env m (npuFastBoot env m).2 ∨
      (npuFastBoot env m).1 = 0 ∧ (npuFastBoot env m).2.rocket = some .devfreq ∧
        (m.volt.probe = none ∨ env.rmmodVolt = true →
          (npuFastBoot env m).2.volt.probe.isSome →
            (npuFastBoot env m).2.volt.world.rail = rocketVoltForHigh) ∧
        ((npuFastBoot env m).2.volt.probe = none →
          ∀ (n : ℕ) (s : State n), Reachable (fun s => ∃ clock ≤ rocketSafeRate,
              s = .load clock (npuFastBoot env m).2.volt.world.rail) (restrict Step RailLow) s →
            s.clock ≤ rocketHighRate) := by
  rcases npuFastBoot_cases env m with h | h
  · exact .inl h
  · rw [h]
    have hend := volt_at h0 hat hexit hobeys hget
    refine .inr ⟨rfl, rfl, fun hx hloaded => volt_raised hend hget hx hloaded,
      fun hnone n s hs => ?_⟩
    have hlow : (insmodVolt env (rmmodVolt env m.volt)).world.rail = rail := by
      change (insmodVolt env (rmmodVolt env m.volt)).probe = none at hnone
      simpa [Volt.At, hnone] using hend
    exact capped (hlow ▸ hrail) hs

/-- Everything works, on a machine that has just been started. -/
def BootEnv.smooth : BootEnv where
  vermagic := true
  rmmod := true
  insmod := true
  registered := some ⟨⟨200000000, 1000000000⟩, .userspace⟩
  modprobe := true
  rmmodVolt := true
  voltExit := .exact
  volt := .exact
  irq := true
  affinity := true
  sleep := true
  minFreq := true
  maxFreq := true
  governor := true
  policy _ := true

def started : Machine :=
  ⟨some .stock, none, ⟨⟨0, 0, 0, 800000, []⟩, none⟩, none, false, fun _ => false⟩

theorem npuFastBoot_capped_started :
    (npuFastBoot .smooth started).2.volt.world.rail = rocketVoltForHigh := by
  have h0 : (0 : ℤ) < 800000 := by decide
  have hat : Volt.At 800000 started.volt := rfl
  have hexit : ∀ uv r, BootEnv.smooth.voltExit.set uv r = (0, uv) := fun _ _ => rfl
  have hobeys : BootEnv.smooth.volt.Obeys := fun _ _ => .inl ⟨rfl, rfl⟩
  have hget : BootEnv.smooth.volt.regulatorGet ≠ some 0 := by decide
  rcases npuFastBoot_capped h0 (by decide) hat hexit hobeys hget with h | ⟨-, -, h, -⟩
  · exact absurd h.1 (by decide)
  · exact h (.inl rfl) rfl

end RocketNpu.Boot
