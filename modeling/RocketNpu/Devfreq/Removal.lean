import Mathlib.Logic.Relation
import RocketNpu.Devfreq.BoostGuard

namespace RocketNpu.Devfreq
open Runs

variable {n : ℕ}

/-- Where `rocket_remove` stands between two of its atomic steps. -/
inductive RemovePc where
  | entered
  | lowered
  | unregistered (i : ℕ)
  | disarmed (i : ℕ)
  | removalFailed
  | coreRemoved
  | closing
  | sweeping (i : ℕ)
  | swept (i : ℕ)
  | sweptDisarmed (i : ℕ)
  | finished
  | devCleared
  | done
deriving DecidableEq, Repr

/-- The state while one core is being removed; `down` records that its notifier has been
unregistered, by `rocket_devfreq_core_removed` or, where that failed, by the sweep of
`rocket_devfreq_fini`. -/
structure Removal (n : ℕ) where
  pc : RemovePc
  s : State n
  down : Bool

def Removal.at (x : Removal n) (pc : RemovePc) (s : State n) : Removal n :=
  { x with pc := pc, s := s }

/-- The next atomic step of `rocket_remove`: a section under `rocket_df.lock`, a notifier
removal, or one write. -/
def Removal.next (env : RemoveEnv n) (core : CorePtr) (d : Fin n) (x : Removal n) : Removal n :=
  match x.pc with
  | .entered => x.at .lowered (coreRemovedLocked env.clk x.s)
  | .lowered =>
    match findArmed core x.s with
    | none => x.at .coreRemoved x.s
    | some i =>
      match devPmGenpdRemoveNotifier env.notifier d x.s with
      | (.error _, s) => x.at .removalFailed s
      | (.ok (), s) => { x.at (.unregistered i) s with down := true }
  | .unregistered i => x.at (.disarmed i) (x.s.setNb i ⟨(x.s.nb i).core, false⟩)
  | .disarmed i => x.at .coreRemoved (x.s.setNb i ⟨none, (x.s.nb i).armed⟩)
  | .removalFailed => x.at .coreRemoved x.s.setUnsafe
  | .coreRemoved =>
    if rocketDevfreqOwns core x.s ∧ x.s.df.core = some core then
      x.at .closing { x.s with df.cdev := false }
    else x.at .finished x.s
  | .closing => x.at (.sweeping 0) (finiLocked env.fini.clk env.fini.suspended x.s)
  | .sweeping i =>
    if i < rocketDfMaxNb then
      match (x.s.nb i).armed, (x.s.nb i).core.bind (x.s.coreDev (env.fini.stale i)) with
      | true, some e =>
        match devPmGenpdRemoveNotifier (env.fini.notifier i) e x.s with
        | (.error _, s) => x.at (.sweeping (i + 1)) s
        | (.ok (), s) => { x.at (.swept i) s with down := x.down || e == d }
      | _, _ => x.at (.sweeping (i + 1)) x.s
    else x.at .finished x.s
  | .swept i => x.at (.sweptDisarmed i) (x.s.setNb i ⟨(x.s.nb i).core, false⟩)
  | .sweptDisarmed i => x.at (.sweeping (i + 1)) (x.s.setNb i ⟨none, (x.s.nb i).armed⟩)
  | .finished => x.at .devCleared (x.s.setDev core.idx none)
  | .devCleared =>
    let s := { x.s with numCores := x.s.numCores - 1 }
    x.at .done (if s.numCores = 0 then s.freeDevice else s)
  | .done => x

/-- One step of the removal, or a target call, which is one section under the lock. -/
inductive RemovalOp (n : ℕ) where
  | remove
  | target (env : TargetEnv n) (opp : Except Errno ℕ)

/-- The steps on an exact clock. -/
def RemovalStep (env : RemoveEnv n) (core : CorePtr) (d : Fin n) (x : Removal n)
    (op : RemovalOp n) (y : Removal n) : Prop :=
  match op with
  | .remove => y = x.next env core d
  | .target tenv opp => (Op.target tenv opp).Admissible x.s ∧ tenv.clk = .ok ∧
      y = { x with s := (rocketDevfreqTarget tenv opp x.s).2 }

/-- `rocket_remove` is entered for the device `d`, bound at `core`, in a state that some
history of completed calls leads to. -/
def Begins (core : CorePtr) (d : Fin n) (x : Removal n) : Prop :=
  Reaches x.s ∧ x.pc = .entered ∧ x.down = false ∧
    x.s.rdev = some core.rdev ∧ findCoreForDev d x.s = some core.idx

section Alone

variable (env : RemoveEnv n) (core : CorePtr) (d : Fin n)

/-- What steps of the removal alone lead to. -/
abbrev Leads (x y : Removal n) : Prop :=
  Relation.ReflTransGen (fun x y => y = x.next env core d) x y

variable {env core d}

theorem leads_next {x y : Removal n} (h : Leads env core d (x.next env core d) y) :
    Leads env core d x y :=
  .head rfl h

theorem setNb_clear (s : State n) (i : ℕ) :
    (s.setNb i ⟨(s.nb i).core, false⟩).setNb i
      ⟨none, ((s.setNb i ⟨(s.nb i).core, false⟩).nb i).armed⟩ = s.setNb i ⟨none, false⟩ := by
  simp [State.setNb]

theorem leads_coreRemoved (env : RemoveEnv n) (core : CorePtr) (d : Fin n) (s : State n)
    (b : Bool) :
    ∃ b', Leads env core d ⟨.lowered, s, b⟩
      ⟨.coreRemoved, coreRemovedUnregister env.notifier core d s, b'⟩ := by
  unfold coreRemovedUnregister
  cases hf : findArmed core s with
  | none =>
    refine ⟨b, leads_next ?_⟩
    simp only [Removal.next, hf, Removal.at]
    exact .refl
  | some i =>
    dsimp only
    split
    · next e t heq =>
      refine ⟨b, leads_next ?_⟩
      simp only [Removal.next, hf, heq, Removal.at]
      exact leads_next .refl
    · next t heq =>
      refine ⟨true, leads_next ?_⟩
      simp only [Removal.next, hf, heq, Removal.at]
      apply leads_next
      apply leads_next
      simp only [Removal.next, Removal.at, setNb_clear]
      exact .refl

theorem leads_disarmSlot {i : ℕ} (hi : i < rocketDfMaxNb) (s : State n) (b : Bool) :
    ∃ b', Leads env core d ⟨.sweeping i, s, b⟩
      ⟨.sweeping (i + 1), disarmSlot (env.fini.notifier i) (env.fini.stale i) i s, b'⟩ := by
  unfold disarmSlot
  rcases ha : (s.nb i).armed with _ | _
  · refine ⟨b, leads_next ?_⟩
    simp only [Removal.next, hi, if_true, ha]
    exact .refl
  · rcases hb : (s.nb i).core.bind (s.coreDev (env.fini.stale i)) with _ | e
    · refine ⟨b, leads_next ?_⟩
      simp only [Removal.next, hi, if_true, ha, hb]
      exact .refl
    · rcases hr : devPmGenpdRemoveNotifier (env.fini.notifier i) e s with ⟨e' | _, t⟩
      · refine ⟨b, leads_next ?_⟩
        simp only [Removal.next, hi, if_true, ha, hb, hr]
        exact .refl
      · refine ⟨b || e == d, leads_next ?_⟩
        simp only [Removal.next, hi, if_true, ha, hb, hr, Removal.at]
        apply leads_next
        apply leads_next
        simp only [Removal.next, Removal.at, setNb_clear]
        exact .refl

theorem leads_disarmed (s : State n) (b : Bool) :
    ∃ b', Leads env core d ⟨.sweeping 0, s, b⟩
      ⟨.finished, rocketDfDisarmNotifiers env.fini.notifier env.fini.stale s, b'⟩ := by
  have h : ∀ k ≤ rocketDfMaxNb, ∃ b', Leads env core d ⟨.sweeping 0, s, b⟩
      ⟨.sweeping k, disarmUpTo env.fini.notifier env.fini.stale k s, b'⟩ := by
    intro k hk
    induction k with
    | zero => exact ⟨b, .refl⟩
    | succ k ih =>
      obtain ⟨b₁, h₁⟩ := ih (by omega)
      obtain ⟨b₂, h₂⟩ : ∃ b₂, Leads env core d
          ⟨.sweeping k, disarmUpTo env.fini.notifier env.fini.stale k s, b₁⟩
          ⟨.sweeping (k + 1), disarmUpTo env.fini.notifier env.fini.stale (k + 1) s, b₂⟩ :=
        leads_disarmSlot (by omega) _ b₁
      exact ⟨b₂, h₁.trans h₂⟩
  obtain ⟨b', h'⟩ := h _ le_rfl
  refine ⟨b', h'.trans (leads_next ?_)⟩
  simp only [Removal.next, lt_irrefl, if_false]
  exact .refl

/-- With no other call in between, the steps of a removal are `rocket_remove`. -/
theorem leads_rocketRemove {s : State n} (hr : s.rdev = some core.rdev)
    (hf : findCoreForDev d s = some core.idx) (b : Bool) :
    ∃ b', Leads env core d ⟨.entered, s, b⟩ ⟨.done, rocketRemove env d s, b'⟩ := by
  obtain ⟨b', h⟩ := leads_coreRemoved env core d (coreRemovedLocked env.clk s) b
  have hfini (t : State n) : ∃ b'', Leads env core d ⟨.coreRemoved, t, b'⟩
      ⟨.finished, rocketDevfreqFini env.fini core t, b''⟩ := by
    unfold rocketDevfreqFini
    by_cases ho : rocketDevfreqOwns core t ∧ t.df.core = some core
    · let t' := finiLocked env.fini.clk env.fini.suspended { t with df.cdev := false }
      obtain ⟨b'', hd⟩ : ∃ b'', Leads env core d ⟨.sweeping 0, t', b'⟩
          ⟨.finished, rocketDfDisarmNotifiers env.fini.notifier env.fini.stale t', b''⟩ :=
        leads_disarmed t' b'
      refine ⟨b'', leads_next ?_⟩
      simp only [Removal.next]
      rw [if_pos ho, if_pos ho]
      exact leads_next hd
    · refine ⟨b', leads_next ?_⟩
      simp only [Removal.next]
      rw [if_neg ho, if_neg ho]
      exact .refl
  obtain ⟨b'', hf'⟩ := hfini (coreRemovedUnregister env.notifier core d
    (coreRemovedLocked env.clk s))
  refine ⟨b'', leads_next (h.trans (hf'.trans (leads_next (leads_next ?_))))⟩
  simp only [rocketRemove, hr, hf]
  exact .refl

end Alone

end RocketNpu.Devfreq
