import RocketNpu.Devfreq.Calls

namespace RocketNpu.Devfreq
open Runs

variable {n : ℕ}

/-- The change keeps who owns devfreq, with which regulator and cooling device. -/
structure SameOwner (s t : State n) : Prop where
  core : t.df.core = s.df.core
  reg : t.df.reg = s.df.reg
  cdev : t.df.cdev = s.df.cdev

theorem SameOwner.refl (s : State n) : SameOwner s s := ⟨rfl, rfl, rfl⟩

theorem SameOwner.trans {s t u : State n} (h : SameOwner s t) (k : SameOwner t u) :
    SameOwner s u :=
  ⟨k.core.trans h.core, k.reg.trans h.reg, k.cdev.trans h.cdev⟩

theorem SameOwner.of_df {s t : State n} (h : t.df = s.df) : SameOwner s t :=
  ⟨congrArg _ h, congrArg _ h, congrArg _ h⟩

theorem rocketDfNotify_owner (clk : ClkReply) (stale : Option (Fin n)) (i : ℕ)
    (action : GenpdAction) (s : State n) :
    SameOwner s (rocketDfNotify clk stale i action s).2 := by
  have hlower : SameOwner s (lowerClock clk s).2 := by
    rcases lowerClock_cases clk s with ⟨e, h⟩ | ⟨got, h⟩
    · rw [h]
      exact .refl s
    · rw [h]
      exact .of_df rfl
  rcases rocketDfNotify_cases clk stale i action s with h | h
  · rw [h]
    exact .refl s
  · rw [h]
    refine hlower.trans ?_
    unfold makeSafe dropRequest
    split_ifs
    · exact .refl _
    · exact ⟨rfl, rfl, rfl⟩

theorem genpdSwitch_owner (env : SwitchEnv n) (d : Fin n) (up : Bool) (s : State n) :
    SameOwner s (genpdSwitch env d up s).2 := by
  apply genpdSwitch_keeps (P := SameOwner s) _ _ (.refl s)
  · exact fun i _ t ht => ht.trans (rocketDfNotify_owner (env.clk i) (env.stale i) i _ t)
  · exact fun t l ht => ht.trans (.of_df rfl)

theorem Wake.power_owner (w : Wake n) (d : Fin n) (s : State n) :
    SameOwner s (w.power d s).2 := by
  unfold Wake.power
  split
  · exact .refl s
  · next env _ => exact genpdSwitch_owner env d true s

theorem rocketDevfreqTarget_owner (env : TargetEnv n) (opp : Except Errno ℕ) (s : State n) :
    SameOwner s (rocketDevfreqTarget env opp s).2 := by
  have hheld : SameOwner s (holdUpTo env.wake n s).2 := by
    apply holdUpTo_keeps (P := SameOwner s) _ _ n (.refl s)
    · exact fun i d t ht => ht.trans ((env.wake i).power_owner d t)
    · exact fun t l ht => ht.trans (.of_df rfl)
  cases opp with
  | error e => exact .refl s
  | ok freq =>
    rw [show rocketDevfreqTarget env (.ok freq) s = targetLocked env freq s from rfl]
    rcases targetLocked_cases env freq s with h | ⟨-, ⟨e, t, hh, h⟩ | ⟨t, hh, h⟩⟩
    · rw [h]
      exact .refl s
    · rw [show holdUpTo env.wake n s = _ from hh] at hheld
      rw [h]
      exact hheld
    · rw [show holdUpTo env.wake n s = _ from hh] at hheld
      rw [h]
      unfold changeRate clkSetRate
      cases env.clk freq with
      | error e =>
        simp only [settleRefs_eq]
        exact hheld.trans ⟨rfl, rfl, rfl⟩
      | ok got =>
        simp only [settleRefs_eq]
        exact hheld.trans ⟨rfl, rfl, rfl⟩

theorem rocketDfArmNotifiers_owner (reply : ℕ → Option Errno) (a : ℕ) (s : State n) :
    SameOwner s (rocketDfArmNotifiers reply a s) := by
  unfold rocketDfArmNotifiers
  induction min n rocketDfMaxNb with
  | zero => exact .refl s
  | succ k ih =>
    unfold armUpTo
    refine ih.trans ?_
    rcases armSlot_cases (reply k) a k (armUpTo reply a k s) with h | ⟨d, -, -, h | h⟩
    · rw [h]
      exact .refl _
    · rw [h]
      exact ⟨rfl, rfl, rfl⟩
    · rw [h]
      exact ⟨rfl, rfl, rfl⟩

theorem rocketDfDisarmNotifiers_owner (reply : ℕ → Option Errno)
    (stale : ℕ → Option (Fin n)) (s : State n) :
    SameOwner s (rocketDfDisarmNotifiers reply stale s) := by
  unfold rocketDfDisarmNotifiers
  induction rocketDfMaxNb with
  | zero => exact .refl s
  | succ k ih =>
    unfold disarmUpTo
    refine ih.trans ?_
    rcases disarmSlot_cases (reply k) (stale k) k (disarmUpTo reply stale k s) with
      h | ⟨d, m, -, -, h⟩
    · rw [h]
      exact .refl _
    · rw [h]
      exact .of_df rfl

theorem rocketDevfreqCoreRemoved_owner (clk : ClkReply) (reply : Option Errno) (core : CorePtr)
    (d : Fin n) (s : State n) :
    SameOwner s (rocketDevfreqCoreRemoved clk reply core d s) := by
  have hlocked : SameOwner s (coreRemovedLocked clk s) := by
    rcases coreRemovedLocked_cases clk s with ⟨-, h⟩ | ⟨c, u, -, h⟩
    · rw [h]
      exact .refl s
    · rw [h]
      exact ⟨rfl, rfl, rfl⟩
  unfold rocketDevfreqCoreRemoved
  refine hlocked.trans ?_
  rcases coreRemovedUnregister_cases reply core d (coreRemovedLocked clk s) with
    ⟨-, h⟩ | ⟨j, -, h | ⟨k, h⟩⟩
  · rw [h]
    exact .refl _
  · rw [h]
    exact ⟨rfl, rfl, rfl⟩
  · rw [h]
    exact ⟨rfl, rfl, rfl⟩

theorem unbindSlot_owner (i : ℕ) (s : State n) : SameOwner s (unbindSlot i s) := by
  unfold unbindSlot
  dsimp only
  split_ifs
  · exact .of_df rfl
  · exact .of_df rfl

theorem rocketCoreInit_owner (env : CoreInitEnv n) (d : Fin n) (s : State n) :
    SameOwner s (rocketCoreInit env d s).2 := by
  rcases rocketCoreInit_cases env d s with ⟨e, h⟩ | ⟨e, h⟩ | h
  · rw [h]
    exact .refl s
  · rw [h]
    exact env.wake.power_owner d s
  · rw [h]
    exact env.wake.power_owner d s

theorem claimSlot_owner (env : ProbeEnv n) (a : ℕ) (d : Fin n) (s : State n) :
    SameOwner s (claimSlot env a d s).s := by
  unfold claimSlot
  split
  · exact .refl s
  · next i _ =>
    have hbind : SameOwner s { s.setDev i (some d) with numCores := s.numCores + 1 } :=
      .of_df rfl
    have hinit := hbind.trans (rocketCoreInit_owner env.coreInit d _)
    split
    · next heq => simpa only [heq] using hinit
    · next heq =>
      rw [heq] at hinit
      exact hinit.trans (unbindSlot_owner i _)

theorem beginProbe_owner (env : ProbeEnv n) (d : Fin n) (s : State n) :
    SameOwner s (beginProbe env d s).s := by
  have hclaim {t : State n} (a : ℕ) (ht : SameOwner s t) : SameOwner s (claimSlot env a d t).s :=
    ht.trans (claimSlot_owner env a d t)
  unfold beginProbe
  dsimp only
  split
  · exact hclaim _ (.of_df rfl)
  · exact .of_df rfl
  · exact hclaim _ (.of_df rfl)

theorem suspendDevice_owner (clk : ClkReply) (d : Fin n) (s : State n) :
    SameOwner s (suspendDevice clk d s) := by
  obtain ⟨c, hclk⟩ := clkSetRate_snd clk rocketSafeRate s
  unfold suspendDevice rocketDevfreqSuspend
  split
  · split_ifs
    · split
      · next heq =>
        rw [heq] at hclk
        exact hclk ▸ .of_df rfl
      · next heq =>
        rw [heq] at hclk
        exact hclk ▸ .of_df rfl
    · exact .refl s
  · exact .refl s

/-- The calls that leave the slots, the owner and what it holds as they are. -/
def CallOp.keeps : CallOp n → Bool
  | .probe _ _ | .init _ | .fini _ | .unbind => false
  | _ => true

theorem CallOp.run_keeps {op : CallOp n} {x y : Calls n} (hx : Balanced x.s)
    (hop : op.keeps = true) (h : op.run x = some y) :
    SameOwner x.s y.s ∧ y.s.cores = x.s.cores ∧
      (y.phase = x.phase ∨ ∃ core d, y.phase = .coreRemoved core d) := by
  cases op with
  | probe | init | fini | unbind => cases hop
  | coreRemoved clk reply d =>
    simp only [CallOp.run] at h
    split at h
    · next a i _ _ _ =>
      cases h
      exact ⟨rocketDevfreqCoreRemoved_owner clk reply ⟨a, i⟩ d x.s,
        rocketDevfreqCoreRemoved_cores clk reply ⟨a, i⟩ d hx, .inr ⟨_, d, rfl⟩⟩
    · cases h
  | target env opp =>
    cases h
    exact ⟨rocketDevfreqTarget_owner env opp x.s,
      congrArg Wiring.cores (rocketDevfreqTarget_wiring env opp x.s), .inl rfl⟩
  | notify clk stale i action =>
    cases h
    exact ⟨rocketDfNotify_owner clk stale i action x.s,
      congrArg Wiring.cores (rocketDfNotify_frame clk stale i action x.s).wiring, .inl rfl⟩
  | genpd env d up =>
    cases h
    exact ⟨genpdSwitch_owner env d up x.s,
      congrArg Wiring.cores (genpdSwitch_frame env d up x.s).wiring, .inl rfl⟩
  | suspend clk d =>
    cases h
    exact ⟨suspendDevice_owner clk d x.s,
      congrArg Wiring.cores (suspendDevice_frame clk d x.s).wiring, .inl rfl⟩
  | rail uv =>
    cases h
    exact ⟨.of_df rfl, rfl, .inl rfl⟩

/-- A probe binds its device in a free slot, or leaves the slots as they were. -/
theorem claimSlot_cases {env : ProbeEnv n} {a : ℕ} {d : Fin n} {s : State n} (hs : Balanced s)
    (hr : s.rdev = some a) (hd : ∀ j, s.cores j ≠ some d) :
    (claimSlot env a d s).phase = .idle ∧ (claimSlot env a d s).s.cores = s.cores ∨
      ∃ core, (claimSlot env a d s).phase = .coreInited core d ∧ s.cores core.idx = none ∧
        (claimSlot env a d s).s.cores = Function.update s.cores core.idx (some d) := by
  unfold claimSlot
  split
  · exact .inl ⟨rfl, rfl⟩
  · next i hf =>
    obtain ⟨hi, hfree⟩ := freeSlot_some hf
    have hbind := bindSlot_balanced hs hr hi hfree hd
    obtain ⟨hrem, ho⟩ := bindSlot_removed hs hr hi hfree (d := d)
    have hcores : { s.setDev i (some d) with numCores := s.numCores + 1 }.cores =
        Function.update s.cores i (some d) := rfl
    generalize { s.setDev i (some d) with numCores := s.numCores + 1 } = t at *
    have hfr := rocketCoreInit_frame env.coreInit d t
    have hsame : (rocketCoreInit env.coreInit d t).2.cores = t.cores :=
      congrArg Wiring.cores hfr.wiring
    split
    · next u heq =>
      rw [heq] at hsame
      exact .inr ⟨⟨a, i⟩, rfl, hfree, hsame.trans hcores⟩
    · next e u heq =>
      rw [heq] at hfr hsame
      refine .inl ⟨rfl, funext fun j => ?_⟩
      by_cases hji : j = i
      · subst hji
        rw [hfree]
        unfold unbindSlot
        dsimp only
        split_ifs <;> simp [State.freeDevice, State.setDev]
      · have hunbind : (unbindSlot i u).cores j = u.cores j :=
          unbindSlot_cores (hbind.of_frame hfr) (hrem.of_frame hfr)
            (fun h0 => (congrArg Wiring.core hfr.wiring).trans (ho h0)) hji
        have hu : u.cores = t.cores := hsame
        rw [hunbind, hu, hcores, Function.update_of_ne hji]

theorem beginProbe_cases (env : ProbeEnv n) {d : Fin n} {s : State n} (hs : Balanced s)
    (hd : ∀ i, s.cores i ≠ some d) :
    (beginProbe env d s).phase = .idle ∧ (beginProbe env d s).s.cores = s.cores ∨
      ∃ core, (beginProbe env d s).phase = .coreInited core d ∧ s.cores core.idx = none ∧
        (beginProbe env d s).s.cores = Function.update s.cores core.idx (some d) := by
  have hatt := attach_balanced hs hd
  unfold beginProbe
  dsimp only
  split
  · next a heq => exact claimSlot_cases hatt heq hd
  · exact .inl ⟨rfl, rfl⟩
  · next a heq _ =>
    have hnone : s.cores = fun _ => none := funext (hs.sound.absent heq)
    rw [hnone]
    exact claimSlot_cases (alloc_balanced hatt heq a) rfl fun _ => by simp

end RocketNpu.Devfreq
