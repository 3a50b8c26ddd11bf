import RocketNpu.Drm.OpenClose

namespace RocketNpu.Drm
open Runs SlotTable

/-- The `sched_entity` of an open file: its `rocket_device` is the one after `era` others, and
its schedulers are those in the `cores` slots `scheds` of that device. -/
structure Entity where
  era : ℕ
  scheds : List ℕ
deriving DecidableEq

structure Entities (Dev : Type*) where
  slots : Bind.State Dev
  /-- How many a `rocket_device` with a bound core was torn down. -/
  era : ℕ
  files : List Entity

variable {Dev : Type*}

def Entities.load : Entities Dev := ⟨.load, 0, []⟩

/-- `sched_to_core`, with the scheduler in slot `sched`. -/
def schedToCore (r : Bind.RocketDevice Dev) (sched : ℕ) : Option ℕ :=
  (List.range r.maxCores).find? fun core => (r.devs core).isSome && core == sched

/-- What `rocket_open` needs once it has a core. -/
def OpenEnv.succeeds (env : OpenEnv) : Bool :=
  env.moduleGet && env.kzalloc && env.domain.isNone && env.scheds && env.entityInit.isNone

namespace Entities

def rocketOpen (env : OpenEnv) (r : Bind.RocketDevice Dev) (s : Entities Dev) : Entities Dev :=
  if env.succeeds ∧ 0 < occupied r.maxCores r.devs then
    { s with files := ⟨s.era, Bind.rocketJobOpen r⟩ :: s.files }
  else s

variable [DecidableEq Dev]

/-- A probe or a remove; the `rocket_device` goes with its last core. -/
def bind (available : ℕ) (op : Bind.Op Dev) (s : Entities Dev) : Entities Dev :=
  let slots := op.run available s.slots
  { s with
    slots := slots
    era := if s.slots.rdev.isSome && slots.rdev.isNone then s.era + 1 else s.era }

end Entities

inductive EntityOp (Dev : Type*) where
  | bind (op : Bind.Op Dev)
  | open (env : OpenEnv)
  | close (file : Entity)

variable [DecidableEq Dev] (available : ℕ)

def EntityOp.run : EntityOp Dev → Entities Dev → Entities Dev
  | .bind op, s => s.bind available op
  | .open env, s =>
    match s.slots.rdev with
    | none => s
    | some r => s.rocketOpen env r
  | .close file, s => { s with files := s.files.erase file }

def EntityOp.Admissible : EntityOp Dev → Entities Dev → Prop
  | .bind op, s => op.Admissible available s.slots
  | .open _, s => s.slots.rdev.isSome
  | .close file, s => file ∈ s.files

def EntityStep (s : Entities Dev) (op : EntityOp Dev) (t : Entities Dev) : Prop :=
  op.Admissible available s ∧ t = op.run available s

/-- The file's `rocket_device` is there, and each of its schedulers leads to a core. -/
def Entities.Finds (s : Entities Dev) (file : Entity) : Prop :=
  file.era = s.era ∧ ∃ r, s.slots.rdev = some r ∧ ∀ c ∈ file.scheds, schedToCore r c = some c

def Entities.Found (s : Entities Dev) : Prop := ∀ file ∈ s.files, s.Finds file

/-- No core is removed whose scheduler an open file has. -/
def Spares (s : Entities Dev) : EntityOp Dev → Prop
  | .bind (.remove _ d) => ∀ r, s.slots.rdev = some r → ∀ file ∈ s.files, ∀ c ∈ file.scheds,
      r.devs c ≠ some d
  | _ => True

variable {available} {s t : Entities Dev} {r : Bind.RocketDevice Dev} {c : ℕ}

omit [DecidableEq Dev] in
/-- NULL comes back for the scheduler of a slot that is free. -/
theorem schedToCore_eq (r : Bind.RocketDevice Dev) (c : ℕ) : schedToCore r c =
    if c < r.maxCores ∧ (r.devs c).isSome then some c else none := by
  unfold schedToCore
  cases hf : (List.range r.maxCores).find? fun core => (r.devs core).isSome && core == c with
  | none =>
    rw [if_neg]
    rintro ⟨hlt, hsome⟩
    have hno := List.find?_eq_none.mp hf c (List.mem_range.mpr hlt)
    simp [hsome] at hno
  | some i =>
    have hi := List.mem_range.mp (List.mem_of_find?_eq_some hf)
    have hp := List.find?_some hf
    rw [Bool.and_eq_true, beq_iff_eq] at hp
    obtain ⟨hsome, rfl⟩ := hp
    rw [if_pos ⟨hi, hsome⟩]

omit [DecidableEq Dev] in
theorem schedToCore_self : schedToCore r c = some c ↔ c < r.maxCores ∧ (r.devs c).isSome := by
  rw [schedToCore_eq]
  split_ifs with h <;> simp [h]

omit [DecidableEq Dev] in
/-- `rocket_open` comes to an open file under the same condition when it is counted. -/
theorem files_rocketOpen (keeps : ℕ → Bool) (env : OpenEnv) (r : Bind.RocketDevice Dev)
    (o : Opens Dev) : (o.rocketOpen keeps env r).files =
      if env.succeeds ∧ 0 < occupied r.maxCores r.devs then
        keeps (Bind.rocketJobOpen r).length :: o.files else o.files := by
  obtain ⟨_ | _, _ | _, live, _ | e, _ | _, _ | e'⟩ := env <;>
    rcases Nat.eq_zero_or_pos (occupied r.maxCores r.devs) with h0 | h0 <;>
    simp [Opens.rocketOpen, Opens.rocketJobOpen, OpenEnv.succeeds, Opens.getModule,
      Opens.putModule, Opens.allocPriv, Opens.freePriv, Opens.createDomain, Opens.putDomain, h0,
      Nat.ne_of_gt]

/-- What the driver core notes leaves the device alone. -/
theorem rdev_probed (d : Dev) (x : Except Errno ℕ × Bind.State Dev) :
    (Bind.State.probed d x).rdev = x.2.rdev := by
  rcases x with ⟨_ | _, _⟩ <;> rfl

/-- A probe leaves the cores that are bound, whether it works or not. -/
theorem probe_keeps (h : Bind.Wf s.slots) (hr : s.slots.rdev = some r) (env : Bind.ProbeEnv)
    (d : Dev) : ∃ r', (Bind.rocketProbe available env d s.slots).2.rdev = some r' ∧
      r'.maxCores = r.maxCores ∧ ∀ c, (r.devs c).isSome → (r'.devs c).isSome := by
  simp only [Bind.rocketProbe, hr, Bind.probeCore]
  cases hf : firstFree r.maxCores r.devs with
  | none => exact ⟨r, rfl, rfl, fun _ => id⟩
  | some i =>
    have hfree := (firstFree_some hf).2
    cases env.coreInit with
    | none =>
      refine ⟨r.claim i d, rfl, rfl, fun c hc => ?_⟩
      rw [Bind.RocketDevice.devs_claim]
      by_cases hci : c = i <;> simp [hci, hc]
    | some e =>
      have hcount : ((r.claim i d).clear i).numCores = r.numCores := Nat.add_sub_cancel _ _
      refine ⟨(r.claim i d).clear i, ?_, rfl, fun c hc => ?_⟩
      · have halive := h.alive r hr
        exact if_neg (by omega)
      · have hci : c ≠ i := by
          rintro rfl
          simp [hfree] at hc
        rw [Bind.RocketDevice.devs_clear, Function.update_of_ne hci,
          Bind.RocketDevice.devs_claim, Function.update_of_ne hci]
        exact hc

theorem Entities.Found.probe (h : s.Found) (hw : Bind.Wf s.slots) (env : Bind.ProbeEnv)
    (d : Dev) : (s.bind available (.probe env d)).Found := by
  intro file hfile
  obtain ⟨hera, r, hr, hfound⟩ := h file hfile
  obtain ⟨r', hr', hmax, hkeeps⟩ := @probe_keeps _ _ available s r hw hr env d
  refine ⟨?_, r', (rdev_probed d _).trans hr', fun c hc => ?_⟩
  · simp [Entities.bind, Bind.Op.run, rdev_probed, hr', hera]
  · obtain ⟨hlt, hsome⟩ := schedToCore_self.mp (hfound c hc)
    exact schedToCore_self.mpr ⟨hmax ▸ hlt, hkeeps c hsome⟩

/-- A remove takes down the device when it was the last core's, and clears the slot. -/
theorem remove_eq (hw : Bind.Wf s.slots) (hr : s.slots.rdev = some r) {i : ℕ} {d : Dev}
    (hi : i < r.maxCores) (hd : r.devs i = some d) (stale : Option ℕ) :
    ((Bind.Op.remove stale d).run available s.slots).rdev = r.release i := by
  simp only [Bind.Op.run, Bind.State.removed, Bind.rocketRemove_eq hw hr hi hd stale]

theorem Entities.Found.remove_iff (h : s.Found) (hw : Bind.Wf s.slots)
    (hgiven : ∀ file ∈ s.files, file.scheds ≠ []) {stale : Option ℕ} {d : Dev}
    (ha : s.slots.Bound d) : (s.bind available (.remove stale d)).Found ↔
      Spares s (.bind (.remove stale d)) := by
  obtain ⟨i, hgiven'⟩ := Option.isSome_iff_exists.mp ha
  obtain ⟨r, hr, hi, hd⟩ := hw.slot hgiven'
  have hrun := @remove_eq _ _ available s r hw hr i d hi hd stale
  have hdistinct := (hw.valid r hr).distinct
  constructor
  · intro ht r' hr' file hfile c hc hcd
    obtain rfl : r = r' := Option.some.inj (hr.symm.trans hr')
    obtain ⟨-, r₁, hr₁, hfound⟩ := h file hfile
    obtain rfl : r = r₁ := Option.some.inj (hr.symm.trans hr₁)
    obtain ⟨hlt, -⟩ := schedToCore_self.mp (hfound c hc)
    obtain rfl : c = i := hdistinct c hlt i hi d hcd hd
    -- the slot is empty now, and its scheduler leads nowhere
    obtain ⟨-, r₂, hr₂, hfound'⟩ := ht file hfile
    have hclear : r₂ = r.clear c := by
      have heq : r.release c = some r₂ := hrun.symm.trans hr₂
      unfold Bind.RocketDevice.release at heq
      split_ifs at heq
      exact (Option.some.inj heq).symm
    obtain ⟨-, hsome⟩ := schedToCore_self.mp (hfound' c hc)
    rw [hclear, Bind.RocketDevice.devs_clear, Function.update_self] at hsome
    cases hsome
  · intro hs file hfile
    obtain ⟨hera, r₁, hr₁, hfound⟩ := h file hfile
    obtain rfl : r = r₁ := Option.some.inj (hr.symm.trans hr₁)
    have hne : ∀ c ∈ file.scheds, c ≠ i := by
      rintro c hc rfl
      exact hs r hr file hfile c hc hd
    have hkept : ∀ c ∈ file.scheds, schedToCore (r.clear i) c = some c := by
      intro c hc
      obtain ⟨hlt, hsome⟩ := schedToCore_self.mp (hfound c hc)
      refine schedToCore_self.mpr ⟨hlt, ?_⟩
      rwa [Bind.RocketDevice.devs_clear, Function.update_of_ne (hne c hc)]
    -- a core of the file is left, and with it the device
    have hleft : r.release i = some (r.clear i) := by
      obtain ⟨c, hc⟩ := List.exists_mem_of_ne_nil _ (hgiven file hfile)
      obtain ⟨hlt, hsome⟩ := schedToCore_self.mp (hkept c hc)
      obtain ⟨b, hb⟩ := Option.isSome_iff_exists.mp hsome
      have hpos : 0 < (r.clear i).numCores := by
        rw [((hw.valid r hr).clear hi hd).numCores]
        exact occupied_pos_iff.mpr ⟨c, hlt, b, hb⟩
      exact if_neg (Nat.ne_of_gt hpos)
    have hrdev := hrun.trans hleft
    refine ⟨?_, r.clear i, hrdev, hkept⟩
    simp [Entities.bind, hrdev, hera]

omit [DecidableEq Dev] in
theorem Entities.Found.open (h : s.Found) (env : OpenEnv) (hr : s.slots.rdev = some r) :
    (s.rocketOpen env r).Found := by
  unfold Entities.rocketOpen
  split_ifs
  · intro file hfile
    rcases List.mem_cons.mp hfile with rfl | hfile
    · refine ⟨rfl, r, hr, fun c hc => ?_⟩
      have hmem := List.mem_filter.mp hc
      exact schedToCore_self.mpr ⟨List.mem_range.mp hmem.1, hmem.2⟩
    · exact h file hfile
  · exact h

/-- An open file has schedulers, each once. -/
def Entities.Given (s : Entities Dev) : Prop :=
  ∀ file ∈ s.files, file.scheds ≠ [] ∧ file.scheds.Pairwise (· < ·)

theorem EntityStep.given {op : EntityOp Dev} (h : s.Given) (hs : EntityStep available s op t) :
    t.Given := by
  obtain ⟨-, rfl⟩ := hs
  cases op with
  | bind op => exact h
  | «open» env =>
    simp only [EntityOp.run, Entities.rocketOpen]
    split
    · exact h
    · rename_i r hr
      split_ifs with hopen
      · intro file hfile
        rcases List.mem_cons.mp hfile with rfl | hfile
        · refine ⟨?_, List.pairwise_lt_range.filter _⟩
          obtain ⟨i, hi, d, hd⟩ := occupied_pos_iff.mp hopen.2
          refine List.ne_nil_of_mem (a := i) (List.mem_filter.mpr ⟨List.mem_range.mpr hi, ?_⟩)
          simp [hd]
        · exact h file hfile
      · exact h
  | close file => exact fun file' hfile => h file' (List.mem_of_mem_erase hfile)

theorem EntityStep.wf {op : EntityOp Dev} (h : Bind.Wf s.slots)
    (hs : EntityStep available s op t) : Bind.Wf t.slots := by
  obtain ⟨hadm, rfl⟩ := hs
  cases op with
  | bind op => exact Bind.Step.wf h ⟨hadm, rfl⟩
  | «open» env =>
    simp only [EntityOp.run, Entities.rocketOpen]
    split
    · exact h
    · split_ifs <;> exact h
  | close file => exact h

theorem EntityStep.found_iff {op : EntityOp Dev} (h : s.Found) (hw : Bind.Wf s.slots)
    (hgiven : s.Given) (hs : EntityStep available s op t) : t.Found ↔ Spares s op := by
  obtain ⟨hadm, rfl⟩ := hs
  cases op with
  | bind op =>
    cases op with
    | probe env d => exact iff_of_true (h.probe hw env d) trivial
    | remove stale d => exact h.remove_iff hw (fun file hf => (hgiven file hf).1) hadm
  | «open» env =>
    refine iff_of_true ?_ trivial
    simp only [EntityOp.run]
    split
    · exact h
    · rename_i r hr
      exact h.open env hr
  | close file =>
    exact iff_of_true (fun file' hfile => h file' (List.mem_of_mem_erase hfile)) trivial

/-- While no core is removed that an open file may use, the scheduler's calls find the core of
each scheduler an open file was given, in the device it was opened on; and the first remove of
such a core leaves a scheduler that leads nowhere. -/
theorem scheds_found
    (h : Reachable (· = Entities.load) (restrict (EntityStep available) Spares) s) :
    s.Given ∧ s.Found ∧ ∀ op t, EntityStep available s op t → (t.Found ↔ Spares s op) := by
  obtain ⟨hw, hgiven, hfound⟩ : Bind.Wf s.slots ∧ s.Given ∧ s.Found := by
    refine h.invariant (I := fun s => Bind.Wf s.slots ∧ s.Given ∧ s.Found) ?_ ?_
    · rintro _ rfl
      exact ⟨Bind.Wf.load, fun _ hf => absurd hf List.not_mem_nil,
        fun _ hf => absurd hf List.not_mem_nil⟩
    · rintro s op t ⟨hw, hgiven, hfound⟩ ⟨hs, hspares⟩
      exact ⟨hs.wf hw, hs.given hgiven, (hs.found_iff hfound hw hgiven).mpr hspares⟩
  exact ⟨hgiven, hfound, fun op t hs => hs.found_iff hfound hw hgiven⟩

/-- A file is opened on the first core; the second comes and goes, and then the first goes. -/
theorem scheds_found_firstCore : ∃ s t : Entities ℕ, s.files = [⟨0, [0]⟩] ∧ s.Found ∧
    EntityStep 2 s (.bind (.remove none 10)) t ∧ ¬ t.Found := by
  have hstep : ∀ {s : Entities ℕ} (op : EntityOp ℕ),
      Reachable (· = Entities.load) (restrict (EntityStep 2) Spares) s → op.Admissible 2 s →
        Spares s op → Reachable (· = Entities.load) (restrict (EntityStep 2) Spares) (op.run 2 s) :=
    fun op h ha hs => h.step ⟨⟨ha, rfl⟩, hs⟩
  have hbound : Bind.Op.Admissible 2 (.probe ⟨true, .ok 1, none⟩ 10) (.load : Bind.State ℕ) := by
    decide
  have h1 := hstep (.bind (.probe ⟨true, .ok 1, none⟩ 10)) (.start rfl) hbound trivial
  have h2 := hstep (.open .smooth) h1 rfl trivial
  have h3 := hstep (.bind (.probe ⟨true, .ok 2, none⟩ 11)) h2 (by
    simp only [EntityOp.Admissible]
    decide) trivial
  have h4 := hstep (.bind (.remove none 11)) h3 (by
    simp only [EntityOp.Admissible]
    decide) (by
    rintro _ ⟨⟩ file hfile c hc
    obtain rfl := List.mem_singleton.mp hfile
    obtain rfl := List.mem_singleton.mp hc
    decide)
  obtain ⟨-, hfound, hiff⟩ := scheds_found h4
  refine ⟨_, _, rfl, hfound, ⟨?_, rfl⟩, fun ht => ?_⟩
  · simp only [EntityOp.Admissible]
    decide
  · exact (hiff _ _ ⟨by simp only [EntityOp.Admissible]; decide, rfl⟩).mp ht _ rfl _
      List.mem_cons_self 0 List.mem_cons_self rfl

end RocketNpu.Drm
