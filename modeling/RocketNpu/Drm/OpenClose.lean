import Mathlib.Tactic.Ring
import RocketNpu.Bind.Slots
import RocketNpu.Drm.Files

namespace RocketNpu.Drm
open Runs SlotTable

/-- What is allocated for open files, among cores that come and go. -/
structure Opens (Dev : Type*) where
  slots : Bind.State Dev
  /-- References on the module that opens took. -/
  moduleRefs : ℤ
  privs : ℤ
  /-- References on domains that belong to a `rocket_file_priv`. -/
  domainRefs : ℤ
  /-- Arrays of schedulers. -/
  arrays : ℤ
  /-- The open files; the flag says that `sched_entity.sched_list` is not NULL. -/
  files : List Bool
  /-- Opens that died on the way, and arrays that nothing points to any more. -/
  died : ℕ
  lost : ℕ

variable {Dev : Type*}

def Opens.load : Opens Dev := ⟨.load, 0, 0, 0, 0, [], 0, 0⟩

namespace Opens

def getModule (s : Opens Dev) : Opens Dev := { s with moduleRefs := s.moduleRefs + 1 }

def putModule (s : Opens Dev) : Opens Dev := { s with moduleRefs := s.moduleRefs - 1 }

def allocPriv (s : Opens Dev) : Opens Dev := { s with privs := s.privs + 1 }

def freePriv (s : Opens Dev) : Opens Dev := { s with privs := s.privs - 1 }

def createDomain (s : Opens Dev) : Opens Dev := { s with domainRefs := s.domainRefs + 1 }

def putDomain (s : Opens Dev) : Opens Dev := { s with domainRefs := s.domainRefs - 1 }

/-- `rocket_job_open` for `n` schedulers; `keeps` tells for which `n` the array becomes
`sched_list`. -/
def rocketJobOpen (keeps : ℕ → Bool) (env : OpenEnv) (n : ℕ) (s : Opens Dev) :
    Option Errno × Opens Dev :=
  let s := { s with arrays := s.arrays + 1 }
  match env.entityInit with
  | some e => (some e, { s with lost := s.lost + 1 })
  | none => (none, { s with
      files := keeps n :: s.files
      lost := if keeps n then s.lost else s.lost + 1 })

/-- `rocket_open` on the `rocket_device` that is there. -/
def rocketOpen (keeps : ℕ → Bool) (env : OpenEnv) (r : Bind.RocketDevice Dev) (s : Opens Dev) :
    Opens Dev :=
  if !env.moduleGet then s
  else
    let s := s.getModule
    if !env.kzalloc then s.putModule
    else
      let s := s.allocPriv
      if occupied r.maxCores r.devs = 0 then s.freePriv.putModule
      else if env.domain.isSome then s.freePriv.putModule
      else
        let s := s.createDomain
        -- the array is written without a look at what the allocation returned
        if !env.scheds then { s with died := s.died + 1 }
        else
          match rocketJobOpen keeps env (Bind.rocketJobOpen r).length s with
          | (none, s) => s
          | (some _, s) => s.putDomain.freePriv.putModule

/-- `rocket_postclose` of a file whose entity has a list, or has none. -/
def rocketPostclose (list : Bool) (s : Opens Dev) : Opens Dev :=
  let s := { s with
    arrays := if list then s.arrays - 1 else s.arrays
    files := s.files.erase list }
  s.putDomain.freePriv.putModule

end Opens

inductive OpenOp (Dev : Type*) where
  | bind (op : Bind.Op Dev)
  | open (env : OpenEnv)
  | close (list : Bool)

variable [DecidableEq Dev] (keeps : ℕ → Bool) (available : ℕ)

def OpenOp.run : OpenOp Dev → Opens Dev → Opens Dev
  | .bind op, s => { s with slots := op.run available s.slots }
  | .open env, s =>
    match s.slots.rdev with
    | none => s
    | some r => s.rocketOpen keeps env r
  | .close list, s => s.rocketPostclose list

/-- Files are opened while the DRM device is registered, and closed once each. -/
def OpenOp.Admissible : OpenOp Dev → Opens Dev → Prop
  | .bind op, s => op.Admissible available s.slots
  | .open _, s => s.slots.rdev.isSome
  | .close list, s => list ∈ s.files

def OpenStep (s : Opens Dev) (op : OpenOp Dev) (t : Opens Dev) : Prop :=
  op.Admissible available s ∧ t = op.run keeps available s

/-- Every open file, and every open that died, has one of each; an array is there for each list
of an open file, and for each one lost. -/
structure OpensCounted (s : Opens Dev) : Prop where
  moduleRefs : s.moduleRefs = s.files.length + s.died
  privs : s.privs = s.files.length + s.died
  domainRefs : s.domainRefs = s.files.length + s.died
  arrays : s.arrays = s.files.count true + s.lost

variable {keeps available} {s t : Opens Dev} {r : Bind.RocketDevice Dev} {env : OpenEnv}

omit [DecidableEq Dev] in
/-- `rocket_open` fails with everything given back, or opens a file, or dies. -/
theorem OpensCounted.open (h : OpensCounted s) : OpensCounted (s.rocketOpen keeps env r) := by
  obtain ⟨hmodule, hpriv, hdomain, harrays⟩ := h
  unfold Opens.rocketOpen
  dsimp only
  split_ifs
  case pos => exact ⟨hmodule, hpriv, hdomain, harrays⟩
  case pos | pos | pos =>
    constructor <;> simp [Opens.putModule, Opens.getModule, Opens.freePriv, Opens.allocPriv, *]
  case pos =>
    constructor <;> simp [Opens.getModule, Opens.allocPriv, Opens.createDomain, *] <;> ring
  case neg =>
    unfold Opens.rocketJobOpen
    dsimp only
    cases env.entityInit with
    | some e =>
      constructor <;> simp [Opens.putModule, Opens.getModule, Opens.freePriv, Opens.allocPriv,
        Opens.putDomain, Opens.createDomain, *]
      ring
    | none =>
      rcases hk : keeps (Bind.rocketJobOpen r).length with _ | _ <;> constructor <;>
        simp [Opens.getModule, Opens.allocPriv, Opens.createDomain, *] <;> ring

omit [DecidableEq Dev] in
theorem OpensCounted.close (h : OpensCounted s) {list : Bool} (hl : list ∈ s.files) :
    OpensCounted (s.rocketPostclose list) := by
  obtain ⟨hmodule, hpriv, hdomain, harrays⟩ := h
  have hlen : ((s.files.erase list).length : ℤ) = s.files.length - 1 := by
    have := List.length_erase_of_mem hl
    have := List.length_pos_of_mem hl
    omega
  have hcount : ((s.files.erase list).count true : ℤ) =
      s.files.count true - if list then 1 else 0 := by
    cases list with
    | false => simp [List.count_erase_of_ne]
    | true =>
      have := List.count_pos_iff.mpr hl
      rw [List.count_erase_self]
      simp
      omega
  refine ⟨?_, ?_, ?_, ?_⟩
  · simp only [Opens.rocketPostclose, Opens.putModule, Opens.freePriv, Opens.putDomain, hlen,
      hmodule]
    ring
  · simp only [Opens.rocketPostclose, Opens.putModule, Opens.freePriv, Opens.putDomain, hlen,
      hpriv]
    ring
  · simp only [Opens.rocketPostclose, Opens.putModule, Opens.freePriv, Opens.putDomain, hlen,
      hdomain]
    ring
  · simp only [Opens.rocketPostclose, Opens.putModule, Opens.freePriv, Opens.putDomain, hcount,
      harrays]
    cases list <;> simp
    ring

omit [DecidableEq Dev] in
theorem slots_rocketOpen : (s.rocketOpen keeps env r).slots = s.slots := by
  unfold Opens.rocketOpen Opens.rocketJobOpen
  dsimp only
  split_ifs <;> (try rfl) <;> cases env.entityInit <;> rfl

theorem OpenStep.counted {op : OpenOp Dev} (h : OpensCounted s)
    (hs : OpenStep keeps available s op t) : OpensCounted t := by
  obtain ⟨hadm, rfl⟩ := hs
  cases op with
  | bind op => exact ⟨h.moduleRefs, h.privs, h.domainRefs, h.arrays⟩
  | «open» env =>
    simp only [OpenOp.run]
    split
    · exact h
    · exact h.open
  | close list => exact h.close hadm

theorem OpenStep.wf {op : OpenOp Dev} (h : Bind.Wf s.slots)
    (hs : OpenStep keeps available s op t) : Bind.Wf t.slots := by
  obtain ⟨hadm, rfl⟩ := hs
  cases op with
  | bind op => exact Bind.Step.wf h ⟨hadm, rfl⟩
  | «open» env =>
    simp only [OpenOp.run]
    split
    · exact h
    · rw [slots_rocketOpen]
      exact h
  | close list => exact h

/-- The open gets as far as its array, and then nothing points to it: the entity cannot be had,
or keeps no list of that many schedulers. -/
def loses (keeps : ℕ → Bool) (env : OpenEnv) (r : Bind.RocketDevice Dev) : Bool :=
  env.moduleGet && env.kzalloc && decide (0 < occupied r.maxCores r.devs) && env.domain.isNone &&
    env.scheds && (env.entityInit.isSome || !keeps (Bind.rocketJobOpen r).length)

omit [DecidableEq Dev] in
theorem lost_open : (s.rocketOpen keeps env r).lost = s.lost + (loses keeps env r).toNat := by
  unfold Opens.rocketOpen loses
  dsimp only
  split_ifs with hmodule hpriv hcore hdomain hscheds
  · simp_all
  · simp_all [Opens.putModule, Opens.getModule]
  · simp_all [Opens.putModule, Opens.getModule, Opens.freePriv, Opens.allocPriv]
  · simp_all [Opens.putModule, Opens.getModule, Opens.freePriv, Opens.allocPriv,
      Option.isSome_iff_ne_none]
  · simp_all [Opens.getModule, Opens.allocPriv, Opens.createDomain]
  · have hpos : 0 < occupied r.maxCores r.devs := Nat.pos_of_ne_zero hcore
    unfold Opens.rocketJobOpen
    dsimp only
    cases henv : env.entityInit with
    | some e =>
      simp_all [Opens.putModule, Opens.getModule, Opens.freePriv, Opens.allocPriv,
        Opens.createDomain, Opens.putDomain]
    | none =>
      cases hk : keeps (Bind.rocketJobOpen r).length <;>
        simp_all [Opens.getModule, Opens.allocPriv, Opens.createDomain]

/-- In any run of opens, closes, probes and removes the open files account for everything that
`rocket_open` took, but for the arrays it loses and for opens that died; and no open writes more
schedulers than its array has room for. -/
theorem opens_accounted (h : Reachable (· = Opens.load) (OpenStep keeps available) s) :
    OpensCounted s ∧ ∀ r, s.slots.rdev = some r → (Bind.rocketJobOpen r).length ≤ r.numCores ∧
      ∀ env, (s.rocketOpen keeps env r).lost = s.lost + (loses keeps env r).toNat := by
  have hinv : Bind.Wf s.slots ∧ OpensCounted s := by
    refine h.invariant (I := fun s => Bind.Wf s.slots ∧ OpensCounted s) ?_ ?_
    · rintro _ rfl
      exact ⟨Bind.Wf.load, rfl, rfl, rfl, rfl⟩
    · exact fun s op t hi hs => ⟨hs.wf hi.1, hs.counted hi.2⟩
  exact ⟨hinv.2, fun r hr => ⟨hinv.1.slotsConsistent.jobOpen r hr, fun env => lost_open⟩⟩

/-- One core is bound, and a file is opened and closed. -/
theorem opens_accounted_oneCore : ∃ s : Opens ℕ,
    Reachable (· = Opens.load) (OpenStep (fun n => decide (1 < n)) 3) s ∧
      s.files = [] ∧ s.arrays = 1 := by
  have h0 : Reachable (· = (Opens.load : Opens ℕ)) (OpenStep (fun n => decide (1 < n)) 3) .load :=
    .start rfl
  have hbind : (OpenOp.bind (.probe ⟨true, .ok 1, none⟩ 7) : OpenOp ℕ).Admissible 3 .load :=
    ⟨by decide, by decide⟩
  have h1 := h0.step ⟨hbind, rfl⟩
  have hopen : (OpenOp.open .smooth : OpenOp ℕ).Admissible 3
      (OpenOp.run (fun n => decide (1 < n)) 3 (.bind (.probe ⟨true, .ok 1, none⟩ 7)) .load) := rfl
  have h2 := h1.step ⟨hopen, rfl⟩
  have h3 := h2.step (e := .close false) ⟨List.mem_cons_self, rfl⟩
  refine ⟨_, h3, rfl, ?_⟩
  rw [(opens_accounted h3).1.arrays]
  rfl

end RocketNpu.Drm
