import RocketNpu.Devfreq.Balance

namespace RocketNpu.Devfreq
open Runs

variable {n : ℕ}

/-- Where `rocket_probe` or `rocket_remove` stands between two devfreq calls it makes. -/
inductive Phase (n : ℕ) where
  | idle
  | coreInited (core : CorePtr) (d : Fin n)
  | coreRemoved (core : CorePtr) (d : Fin n)
  | finished (core : CorePtr) (d : Fin n)

/-- The component while cores come and go one at a time. -/
structure Calls (n : ℕ) where
  s : State n
  phase : Phase n

/-- The claim of the slot and `rocket_core_init`, which gives the slot back on failure. -/
def claimSlot (env : ProbeEnv n) (rdev : ℕ) (d : Fin n) (s : State n) : Calls n :=
  match freeSlot s with
  | none => ⟨s, .idle⟩
  | some i =>
    match rocketCoreInit env.coreInit d
        { s.setDev i (some d) with numCores := s.numCores + 1 } with
    | (.ok (), s) => ⟨s, .coreInited ⟨rdev, i⟩ d⟩
    | (.error _, s) => ⟨unbindSlot i s, .idle⟩

/-- The attaching of the device and its `rocket_probe` before the devfreq call. -/
def beginProbe (env : ProbeEnv n) (d : Fin n) (s : State n) : Calls n :=
  let s := { s with powerNb := Function.update s.powerNb d none }
  match s.rdev, env.deviceInit with
  | some rdev, _ => claimSlot env rdev d s
  | none, .error _ => ⟨s, .idle⟩
  | none, .ok rdev =>
    claimSlot env rdev d { s with rdev := some rdev, cores := fun _ => none, numCores := 0 }

/-- The devfreq call of `rocket_probe`: only the core in slot 0 may own devfreq. -/
def endProbe (env : InitEnv n) (core : CorePtr) (d : Fin n) (s : State n) : State n :=
  if core.idx = 0 then rocketDevfreqInit env core d s
  else rocketDevfreqCoreAdded env.notifier core s

def Calls.endProbe (env : InitEnv n) (x : Calls n) : State n :=
  match x.phase with
  | .coreInited core d => Devfreq.endProbe env core d x.s
  | _ => x.s

theorem probeSlot_eq (env : ProbeEnv n) (a : ℕ) (d : Fin n) (s : State n) :
    (probeSlot env a d s).2 = (claimSlot env a d s).endProbe env.init := by
  unfold probeSlot claimSlot
  cases freeSlot s with
  | none => rfl
  | some i =>
    dsimp only
    generalize rocketCoreInit env.coreInit d
      { s.setDev i (some d) with numCores := s.numCores + 1 } = r
    rcases r with ⟨e | _, u⟩
    · rfl
    · dsimp only [Calls.endProbe, endProbe]
      split_ifs <;> rfl

/-- With no other call in between, the two halves are `rocket_probe`. -/
theorem attachAndProbe_eq (env : ProbeEnv n) (d : Fin n) (s : State n) :
    (attachAndProbe env d s).2 = (beginProbe env d s).endProbe env.init := by
  unfold attachAndProbe rocketProbe beginProbe
  dsimp only
  cases s.rdev with
  | some a => exact probeSlot_eq env a d _
  | none =>
    cases env.deviceInit with
    | error e => rfl
    | ok a => exact probeSlot_eq env a d _

/-- The completed calls, the parts of probe and remove around them, and what else moves the
component. -/
inductive CallOp (n : ℕ) where
  | probe (env : ProbeEnv n) (d : Fin n)
  | init (env : InitEnv n)
  | coreRemoved (clk : ClkReply) (reply : Option Errno) (d : Fin n)
  | fini (env : FiniEnv n)
  | unbind
  | target (env : TargetEnv n) (opp : Except Errno ℕ)
  | notify (clk : ClkReply) (stale : Option (Fin n)) (i : ℕ) (action : GenpdAction)
  | genpd (env : SwitchEnv n) (d : Fin n) (up : Bool)
  | suspend (clk : ClkReply) (d : Fin n)
  | rail (uv : ℤ)

def Calls.to (x : Calls n) (s : State n) : Option (Calls n) := some { x with s := s }

/-- The calls of one probe or remove come in its order; the others at any time. -/
def CallOp.run (op : CallOp n) (x : Calls n) : Option (Calls n) :=
  match op with
  | .probe env d =>
    match x.phase with
    | .idle => some (beginProbe env d x.s)
    | _ => none
  | .init env =>
    match x.phase with
    | .coreInited core d => some ⟨endProbe env core d x.s, .idle⟩
    | _ => none
  | .coreRemoved clk reply d =>
    match x.phase, x.s.rdev, findCoreForDev d x.s with
    | .idle, some a, some i =>
      some ⟨rocketDevfreqCoreRemoved clk reply ⟨a, i⟩ d x.s, .coreRemoved ⟨a, i⟩ d⟩
    | _, _, _ => none
  | .fini env =>
    match x.phase with
    | .coreRemoved core d => some ⟨rocketDevfreqFini env core x.s, .finished core d⟩
    | _ => none
  | .unbind =>
    match x.phase with
    | .finished core _ => some ⟨unbindSlot core.idx x.s, .idle⟩
    | _ => none
  | .target env opp => x.to (rocketDevfreqTarget env opp x.s).2
  | .notify clk stale i action => x.to (rocketDfNotify clk stale i action x.s).2
  | .genpd env d up => x.to (genpdSwitch env d up x.s).2
  | .suspend clk d => x.to (suspendDevice clk d x.s)
  | .rail uv => x.to { x.s with rail := uv }

/-- The driver core probes only devices that are not bound. -/
def CallOp.Admissible : CallOp n → Calls n → Prop
  | .probe _ d, x => ∀ i, x.s.cores i ≠ some d
  | _, _ => True

def CallStep (x : Calls n) (op : CallOp n) (y : Calls n) : Prop :=
  op.Admissible x ∧ op.run x = some y

def CallStart (x : Calls n) : Prop := ∃ clock rail, x = ⟨.load clock rail, .idle⟩

/-- The states between completed calls, whatever clocks, notifier chains and wake-ups
answer. -/
abbrev CallReaches (x : Calls n) : Prop := Reachable CallStart CallStep x

/-- What the rest of a probe or remove relies on. -/
def Phase.Ok (p : Phase n) (s : State n) : Prop :=
  match p with
  | .idle => True
  | .coreInited core d => Bound core d s
  | .coreRemoved core d => Removed core d s
  | .finished core d => Removed core d s ∧ (core.idx = 0 → s.df.core = none)

structure CallInv (x : Calls n) : Prop where
  balanced : Balanced x.s
  phase : x.phase.Ok x.s

theorem CallInv.frame {x : Calls n} {s : State n} (hx : CallInv x) (hf : Frame x.s s) :
    CallInv { x with s := s } := by
  refine ⟨hx.balanced.of_frame hf, ?_⟩
  have hp := hx.phase
  unfold Phase.Ok at hp ⊢
  dsimp only
  split at hp
  · trivial
  · exact hp.of_frame hf
  · exact hp.of_frame hf
  · exact ⟨hp.1.of_frame hf, fun h0 => (congrArg Wiring.core hf.wiring).trans (hp.2 h0)⟩

/-- References come to be held only past the gate, which asks for every slot. -/
theorem rocketDevfreqTarget_refsHeld {env : TargetEnv n} {opp : Except Errno ℕ} {s : State n}
    (hs : Balanced s) (h : (rocketDevfreqTarget env opp s).2.df.refsHeld = true) :
    s.df.refsHeld = true ∨ s.wiring.Guarded := by
  cases opp with
  | error e => exact .inl h
  | ok freq =>
    change (targetLocked env freq s).2.df.refsHeld = true at h
    rcases targetLocked_cases env freq s with he | ⟨hp, ⟨e, t, hh, he⟩ | ⟨t, hh, he⟩⟩
    · rw [he] at h
      exact .inl h
    · rw [he] at h
      exact .inl ((holdAll_error hh).refsHeld.symm.trans h)
    · rw [he] at h
      unfold changeRate clkSetRate at h
      cases hclk : env.clk freq with
      | ok got =>
        simp only [hclk, settleRefs_eq, decide_eq_true_eq] at h
        exact .inr (hp.guarded hs.sound h)
      | error e =>
        -- the old request is back, and it was above the safe rate
        simp only [hclk, settleRefs_eq, decide_eq_true_eq] at h
        change rocketSafeRate < t.df.reqRate at h
        rcases (holdAll_ok hh).1.reqRate with hq | hq
        · exact .inl (hs.refs.req (hq ▸ h))
        · exact absurd h (by rw [hq]; exact lt_irrefl _)

theorem Removed.target {env : TargetEnv n} {opp : Except Errno ℕ} {core : CorePtr} {d : Fin n}
    {s : State n} (hs : Balanced s) (hr : Removed core d s) :
    Removed core d (rocketDevfreqTarget env opp s).2 := by
  have hw := rocketDevfreqTarget_wiring env opp s
  have hnb : (rocketDevfreqTarget env opp s).2.nb = s.nb := congrArg Wiring.nb hw
  have hu : (rocketDevfreqTarget env opp s).2.df.isUnsafe = s.df.isUnsafe :=
    congrArg Wiring.isUnsafe hw
  refine ⟨hr.toBound.congr (congrArg Wiring.rdev hw) (congrArg Wiring.cores hw), ?_, ?_⟩
  · by_contra hne
    rcases rocketDevfreqTarget_refsHeld hs (by simpa using hne) with h | h
    · exact absurd (h.symm.trans hr.refsHeld) (by simp)
    · -- the slot of the core that goes is not armed
      obtain ⟨h4, ha⟩ := h.armed core.idx (hs.sound.slot_lt hr.slot)
      exact absurd (ha.symm.trans (hr.disarmed h.safe h4)) (by simp)
  · rw [hnb, hu]
    exact hr.disarmed

theorem CallInv.target {x : Calls n} (hx : CallInv x) (env : TargetEnv n)
    (opp : Except Errno ℕ) : CallInv { x with s := (rocketDevfreqTarget env opp x.s).2 } := by
  have hw := rocketDevfreqTarget_wiring env opp x.s
  refine ⟨⟨hw ▸ hx.balanced.sound,
    rocketDevfreqTarget_refs env opp hx.balanced.sound hx.balanced.refs⟩, ?_⟩
  have hp := hx.phase
  unfold Phase.Ok at hp ⊢
  dsimp only
  split at hp
  · trivial
  · exact hp.congr (congrArg Wiring.rdev hw) (congrArg Wiring.cores hw)
  · exact hp.target hx.balanced
  · exact ⟨hp.1.target hx.balanced, fun h0 => (congrArg Wiring.core hw).trans (hp.2 h0)⟩

theorem claimSlot_inv {env : ProbeEnv n} {a : ℕ} {d : Fin n} {s : State n} (hs : Balanced s)
    (hr : s.rdev = some a) (hd : ∀ j, s.cores j ≠ some d) : CallInv (claimSlot env a d s) := by
  unfold claimSlot
  split
  · exact ⟨hs, trivial⟩
  · next i hf =>
    obtain ⟨hi, hfree⟩ := freeSlot_some hf
    have hbind := bindSlot_balanced hs hr hi hfree hd
    obtain ⟨hrem, ho⟩ := bindSlot_removed hs hr hi hfree (d := d)
    generalize { s.setDev i (some d) with numCores := s.numCores + 1 } = t at hbind hrem ho ⊢
    have hfr := rocketCoreInit_frame env.coreInit d t
    split
    · next u heq =>
      rw [heq] at hfr
      exact ⟨hbind.of_frame hfr, hrem.toBound.of_frame hfr⟩
    · next e u heq =>
      rw [heq] at hfr
      exact ⟨unbindSlot_balanced (hbind.of_frame hfr) (hrem.of_frame hfr)
        fun h0 => (congrArg Wiring.core hfr.wiring).trans (ho h0), trivial⟩

theorem beginProbe_inv (env : ProbeEnv n) {d : Fin n} {s : State n} (hs : Balanced s)
    (hd : ∀ i, s.cores i ≠ some d) : CallInv (beginProbe env d s) := by
  have hatt := attach_balanced hs hd
  unfold beginProbe
  dsimp only
  split
  · next a heq => exact claimSlot_inv hatt heq hd
  · exact ⟨hatt, trivial⟩
  · next a heq _ => exact claimSlot_inv (alloc_balanced hatt heq a) rfl (fun _ => by simp)

theorem endProbe_balanced (env : InitEnv n) {core : CorePtr} {d : Fin n} {s : State n}
    (hs : Balanced s) (hb : Bound core d s) : Balanced (endProbe env core d s) := by
  unfold endProbe
  split_ifs with h0
  · exact rocketDevfreqInit_balanced env hs hb h0
  · exact rocketDevfreqCoreAdded_balanced env.notifier hs hb.rdev

theorem suspendDevice_frame (clk : ClkReply) (d : Fin n) (s : State n) :
    Frame s (suspendDevice clk d s) := by
  have hclk : Frame s (clkSetRate clk rocketSafeRate s).2 := by
    refine ⟨⟨?_, ?_, .inl ?_⟩, ?_⟩ <;> simp
  unfold suspendDevice rocketDevfreqSuspend
  split
  · split_ifs
    · split
      · next heq => simpa only [heq] using hclk
      · next heq => simpa only [heq] using hclk
    · exact .refl s
  · exact .refl s

/-- What one call does. -/
inductive CallMove (x : Calls n) : CallOp n → Calls n → Prop where
  | probed {env : ProbeEnv n} {d : Fin n} : (∀ i, x.s.cores i ≠ some d) →
      CallMove x (.probe env d) (beginProbe env d x.s)
  | inited {env : InitEnv n} {core : CorePtr} {d : Fin n} : x.phase = .coreInited core d →
      CallMove x (.init env) ⟨endProbe env core d x.s, .idle⟩
  | removed {clk : ClkReply} {reply : Option Errno} {d : Fin n} {a i : ℕ} :
      x.s.rdev = some a → findCoreForDev d x.s = some i →
      CallMove x (.coreRemoved clk reply d)
        ⟨rocketDevfreqCoreRemoved clk reply ⟨a, i⟩ d x.s, .coreRemoved ⟨a, i⟩ d⟩
  | finished {env : FiniEnv n} {core : CorePtr} {d : Fin n} : x.phase = .coreRemoved core d →
      CallMove x (.fini env) ⟨rocketDevfreqFini env core x.s, .finished core d⟩
  | unbound {core : CorePtr} {d : Fin n} : x.phase = .finished core d →
      CallMove x .unbind ⟨unbindSlot core.idx x.s, .idle⟩
  | targeted {env : TargetEnv n} {opp : Except Errno ℕ} :
      CallMove x (.target env opp) { x with s := (rocketDevfreqTarget env opp x.s).2 }
  /-- Notifications, power switches, the suspend of a core and the rail. -/
  | framed {op : CallOp n} {s : State n} : Frame x.s s → CallMove x op { x with s := s }

theorem CallStep.move {x y : Calls n} {op : CallOp n} (h : CallStep x op y) :
    CallMove x op y := by
  obtain ⟨ha, h⟩ := h
  cases op <;> simp only [CallOp.run] at h
  case probe env d =>
    split at h
    · cases h
      exact .probed ha
    · cases h
  case init env =>
    split at h
    · next core d heq =>
      cases h
      exact .inited heq
    · cases h
  case coreRemoved clk reply d =>
    split at h
    · next a i _ hr hf =>
      cases h
      exact .removed hr hf
    · cases h
  case fini env =>
    split at h
    · next core d heq =>
      cases h
      exact .finished heq
    · cases h
  case unbind =>
    split at h
    · next core d heq =>
      cases h
      exact .unbound heq
    · cases h
  case target env opp =>
    cases h
    exact .targeted
  case notify clk stale i action =>
    cases h
    exact .framed (rocketDfNotify_frame clk stale i action x.s)
  case genpd env d up =>
    cases h
    exact .framed (genpdSwitch_frame env d up x.s)
  case suspend clk d =>
    cases h
    exact .framed (suspendDevice_frame clk d x.s)
  case rail uv =>
    cases h
    exact .framed ⟨⟨rfl, rfl, .inl rfl⟩, rfl⟩

/-- Every completed call keeps the books. -/
theorem CallInv.step {x y : Calls n} {op : CallOp n} (hx : CallInv x) (h : CallStep x op y) :
    CallInv y := by
  have hp := hx.phase
  cases h.move with
  | @probed env d hd => exact beginProbe_inv env hx.balanced hd
  | @inited env core d heq =>
    rw [heq] at hp
    exact ⟨endProbe_balanced env hx.balanced hp, trivial⟩
  | @removed clk reply d a i hr hf =>
    have hb : Bound ⟨a, i⟩ d x.s := ⟨hr, findCoreForDev_some hf⟩
    obtain ⟨h1, h2⟩ := rocketDevfreqCoreRemoved_balanced clk reply hx.balanced hb
    exact ⟨h1, h2⟩
  | @finished env core d heq =>
    rw [heq] at hp
    obtain ⟨h1, h2, h3⟩ := rocketDevfreqFini_balanced env hx.balanced hp
    exact ⟨h1, h2, h3⟩
  | unbound heq =>
    rw [heq] at hp
    exact ⟨unbindSlot_balanced hx.balanced hp.1 hp.2, trivial⟩
  | @targeted env opp => exact hx.target env opp
  | framed hf => exact hx.frame hf

theorem claimSlot_cores {env : ProbeEnv n} {a : ℕ} {d : Fin n} {s : State n} (hs : Balanced s)
    (hr : s.rdev = some a) (hd : ∀ j, s.cores j ≠ some d) {j : ℕ}
    (hj : (claimSlot env a d s).s.cores j = none) : s.cores j = none := by
  unfold claimSlot at hj
  split at hj
  · exact hj
  · next i hf =>
    obtain ⟨hi, hfree⟩ := freeSlot_some hf
    by_cases hji : j = i
    · exact hji ▸ hfree
    have hbind := bindSlot_balanced hs hr hi hfree hd
    obtain ⟨hrem, ho⟩ := bindSlot_removed hs hr hi hfree (d := d)
    have hcores : { s.setDev i (some d) with numCores := s.numCores + 1 }.cores j = s.cores j := by
      simp [State.setDev, hji]
    generalize { s.setDev i (some d) with numCores := s.numCores + 1 } = t at *
    have hfr := rocketCoreInit_frame env.coreInit d t
    have hsame : (rocketCoreInit env.coreInit d t).2.cores j = s.cores j :=
      (congrFun (congrArg Wiring.cores hfr.wiring) j).trans hcores
    split at hj
    · next u heq =>
      rw [heq] at hsame
      exact hsame.symm.trans hj
    · next e u heq =>
      rw [heq] at hfr hsame
      rw [← hsame, ← unbindSlot_cores (hbind.of_frame hfr) (hrem.of_frame hfr)
        (fun h0 => (congrArg Wiring.core hfr.wiring).trans (ho h0)) hji]
      exact hj

/-- A probe takes no slot away. -/
theorem beginProbe_cores {env : ProbeEnv n} {d : Fin n} {s : State n} (hs : Balanced s)
    (hd : ∀ i, s.cores i ≠ some d) {j : ℕ} (hj : (beginProbe env d s).s.cores j = none) :
    s.cores j = none := by
  have hatt := attach_balanced hs hd
  unfold beginProbe at hj
  dsimp only at hj
  split at hj
  · next a heq => exact claimSlot_cores hatt heq hd hj
  · exact hj
  · next a heq _ => exact hs.sound.absent heq j

theorem endProbe_cores (env : InitEnv n) (core : CorePtr) (d : Fin n) (s : State n) :
    (endProbe env core d s).cores = s.cores := by
  unfold endProbe rocketDevfreqCoreAdded
  split_ifs
  · exact rocketDevfreqInit_cores env core d s
  · exact (armUpTo_window env.notifier core.rdev _ _).2
  · rfl

/-- Only the end of a `rocket_remove` takes a slot away. -/
theorem CallStep.cores {x y : Calls n} {op : CallOp n} (hx : CallInv x) (h : CallStep x op y)
    {j : ℕ} (hj : y.s.cores j = none) :
    x.s.cores j = none ∨ op = .unbind ∧ ∃ core d, x.phase = .finished core d ∧ core.idx = j := by
  have hsame {s : State n} (hc : s.cores = x.s.cores) (hs : s.cores j = none) :
      x.s.cores j = none := (congrFun hc j).symm.trans hs
  cases h.move with
  | probed hd => exact .inl (beginProbe_cores hx.balanced hd hj)
  | @inited env core d _ => exact .inl (hsame (endProbe_cores env core d x.s) hj)
  | @removed clk reply d a i _ _ =>
    exact .inl (hsame (rocketDevfreqCoreRemoved_cores clk reply ⟨a, i⟩ d hx.balanced) hj)
  | @finished env core d _ => exact .inl (hsame (rocketDevfreqFini_cores env core x.s) hj)
  | @unbound core d heq =>
    by_cases hji : j = core.idx
    · exact .inr ⟨rfl, core, d, heq, hji.symm⟩
    · have hp := hx.phase
      rw [heq] at hp
      exact .inl ((unbindSlot_cores hx.balanced hp.1 hp.2 hji).symm.trans hj)
  | @targeted env opp =>
    have hw := rocketDevfreqTarget_wiring env opp x.s
    exact .inl (hsame (congrArg Wiring.cores hw) hj)
  | framed hf => exact .inl (hsame (congrArg Wiring.cores hf.wiring) hj)

theorem CallReaches.inv {x : Calls n} (h : CallReaches x) : CallInv x := by
  refine h.invariant (fun x hx => ?_) fun _ _ _ hx hs => hx.step hs
  obtain ⟨clock, rail, rfl⟩ := hx
  exact ⟨.load clock rail, trivial⟩

/-- A device is bound in at most one slot. -/
theorem boundBelow_eq {s : State n} (hs : s.wiring.Sound) {i : ℕ} {d : Fin n}
    (hi : s.cores i = some d) (k : ℕ) : boundBelow s k d = if i < k then 1 else 0 := by
  induction k with
  | zero => simp [boundBelow]
  | succ k ih =>
    have hk : s.cores k = some d ↔ k = i := ⟨fun h => hs.slot_inj h hi, fun h => h ▸ hi⟩
    simp only [boundBelow_succ, ih, hk]
    split_ifs <;> omega

theorem boundBelow_of_unbound {s : State n} {d : Fin n} (h : ∀ i, s.cores i ≠ some d) (k : ℕ) :
    boundBelow s k d = 0 := by
  simp [boundBelow, h, Nat.count_false]

/-- After every completed call devfreq holds exactly one reference on each bound core while
the boost flag is set and none otherwise, and none on a core that is not bound. -/
theorem boost_references {x : Calls n} (h : CallReaches x) (d : Fin n) :
    ((∃ i, x.s.cores i = some d) → x.s.held d = if x.s.df.refsHeld then 1 else 0) ∧
      ((∀ i, x.s.cores i ≠ some d) → x.s.held d = 0) := by
  have hb := h.inv.balanced
  have hheld := hb.refs.held d
  constructor
  · rintro ⟨i, hi⟩
    have hin : i < n := hb.sound.slot_lt hi
    rw [hheld, boundBelow_eq hb.sound hi, if_pos hin]
    rfl
  · intro hno
    rw [hheld, boundBelow_of_unbound hno]
    split_ifs <;> rfl

/-- One core, probed and then boosted. -/
def boostedCalls : Calls 1 where
  s := (rocketDevfreqTarget .smooth (.ok 300000000)
    ((beginProbe (.smooth 0) ⟨0, Nat.one_pos⟩ (.load rocketSafeRate 0)).endProbe
      (ProbeEnv.smooth 0).init)).2
  phase := .idle

theorem boostedCalls_reaches : CallReaches boostedCalls := by
  have h0 : CallReaches (⟨.load rocketSafeRate 0, .idle⟩ : Calls 1) := .start ⟨_, _, rfl⟩
  have h1 : CallReaches (beginProbe (.smooth 0) 0 (.load rocketSafeRate 0) : Calls 1) :=
    h0.step (e := .probe (.smooth 0) 0) ⟨by simp [CallOp.Admissible, State.load], rfl⟩
  have h2 : CallReaches (⟨(beginProbe (.smooth 0) 0 (.load rocketSafeRate 0)).endProbe
      (ProbeEnv.smooth 0).init, .idle⟩ : Calls 1) :=
    h1.step (e := .init (ProbeEnv.smooth 0).init) ⟨trivial, rfl⟩
  exact h2.step (e := .target .smooth (.ok 300000000)) ⟨trivial, rfl⟩

theorem boost_references_boosted :
    boostedCalls.s.held 0 = 1 ∧ boostedCalls.s.df.refsHeld = true := by
  have hbound : ∃ i, boostedCalls.s.cores i = some 0 := ⟨0, by decide⟩
  have hrefs : boostedCalls.s.df.refsHeld = true := by decide
  have hheld := (boost_references boostedCalls_reaches 0).1 hbound
  exact ⟨by rw [hheld, hrefs]; rfl, hrefs⟩

end RocketNpu.Devfreq
