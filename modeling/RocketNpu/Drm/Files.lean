import RocketNpu.Lib.Runs
import RocketNpu.Drm.Submit

namespace RocketNpu.Drm
open Runs Refcount Calls Call

/-- What `rocket_open` depends on outside. -/
structure OpenEnv where
  moduleGet : Bool
  kzalloc : Bool
  /-- `rocket_first_live_core` finds one. -/
  liveCore : Bool
  domain : Option Errno
  scheds : Bool
  entityInit : Option Errno

namespace State

/-- The state when the module is loaded. -/
def init : State where
  files := fun _ => ⟨false, [], [], []⟩
  domains := fun _ => ⟨⟨0, []⟩, false, fun _ => false⟩
  bos := fun _ => ⟨0, none, 0, 0, ⟨0, []⟩, 0⟩
  jobs := fun _ => { desc := ⟨0, 0, 0, 0, 0, 0, 0⟩, refcount := 0 }
  nextFile := 0
  nextBo := 0
  nextJob := 0
  faults := []

/-- A file with its `rocket_file_priv` and the domain `rocket_iommu_domain_create` made. -/
@[simps! -fullyApplied]
def newFile (s : State) : State :=
  { s with
    files := Function.update s.files s.nextFile ⟨true, [], [], []⟩
    domains := Function.update s.domains s.nextFile ⟨.init .file, false, fun _ => false⟩
    nextFile := s.nextFile + 1 }

/-- `drm_mm_takedown`. -/
@[simps! -fullyApplied]
def drmMmTakedown (f : ℕ) (s : State) : State :=
  s.expect ((s.files f).nodes = []) (.nodesLeft f)

end State

/-- The end of `rocket_postclose`, and of `rocket_open` when the entity cannot be had. -/
def dropPriv (f : ℕ) : DrmCall PUnit := do
  -- nothing waits for the BOs that running jobs hold
  modify (·.drmMmTakedown f)
  rocketIommuDomainPut .file (some f)
  modify (·.setFile f ({ · with priv := false }))

/-- The list of schedulers is written without a look at what the allocation returned. -/
def rocketJobOpen (env : OpenEnv) : DrmCall PUnit := do
  if !env.scheds then die .nullScheds
  orFail env.entityInit

def rocketOpen (env : OpenEnv) : DrmCall PUnit := do
  if !env.moduleGet then fail .einval
  if !env.kzalloc then fail .enomem
  if !env.liveCore then fail .enodev
  orFail env.domain
  let f ← read (·.nextFile)
  modify (·.newFile)
  onError (rocketJobOpen env) (dropPriv f)

/-- `rocket_job_close` waits until no job is queued: `Op.Admissible` says so. -/
def rocketPostclose (f : ℕ) : DrmCall PUnit := dropPriv f

/-- `drm_gem_handle_delete`. -/
def drmGemHandleDelete (f h : ℕ) : DrmCall PUnit := do
  let table ← read fun s => (s.files f).handles
  match table.lookup h with
  | none => fail .einval
  | some b =>
    modify (·.setFile f fun file => { file with handles := file.handles.erase (h, b) })
    drmGemObjectPut (.handle h) b

/-- The scheduler takes a job off its entity, to run it or to cancel it. -/
def takeJob (j : ℕ) : DrmCall PUnit := modify (·.setJob j ({ · with stage := .taken }))

/-- The scheduler is done with a job. -/
def freeJob (j : ℕ) : DrmCall PUnit := do
  modify (·.setJob j ({ · with stage := .freed }))
  rocketJobFree j

/-- The calls the state moves by, each with what it depends on outside. -/
inductive Op where
  | open (env : OpenEnv)
  | createBo (env : CreateEnv) (f : ℕ) (size : BitVec 32)
  | submitJob (env : SubmitEnv) (f : ℕ) (desc : JobDesc)
  | dropHandle (f h : ℕ)
  | takeJob (f j : ℕ)
  | freeJob (j : ℕ)
  | postclose (f : ℕ)

def Op.run (abi : Abi) : Op → State → State
  | .open env, s => (rocketOpen env s).2
  | .createBo env f size, s => (rocketIoctlCreateBo env f size s).2
  | .submitJob env f desc, s => (rocketIoctlSubmitJob abi env f desc s).2
  | .dropHandle f h, s => (drmGemHandleDelete f h s).2
  | .takeJob _ j, s => (Drm.takeJob j s).2
  | .freeJob j, s => (Drm.freeJob j s).2
  | .postclose f, s => (rocketPostclose f s).2

/-- What the DRM core and the scheduler promise: ioctls come on open files, a new handle is
an unused one, jobs leave their entity first in, first out, `free_job` comes once for each
job taken, and a file is closed when its handles are dropped and no job is queued. -/
def Op.Admissible : Op → State → Prop
  | .open _, _ => True
  | .createBo env f _, s =>
    (s.files f).priv ∧ ∀ h, env.handle = .ok h → (s.files f).handles.lookup h = none
  | .submitJob _ f _, s => (s.files f).priv
  | .dropHandle f _, s => (s.files f).priv
  | .takeJob f j, s => (s.queue f).head? = some j
  | .freeJob j, s => (s.jobs j).stage = .taken
  | .postclose f, s => (s.files f).priv ∧ (s.files f).handles = [] ∧ s.queue f = []

def Step (abi : Abi) (s : State) (op : Op) (t : State) : Prop :=
  op.Admissible s ∧ t = op.run abi s

abbrev Reaches (abi : Abi) (s : State) : Prop := Reachable (· = State.init) (Step abi) s

theorem Reaches.run {abi : Abi} {s : State} (h : Reaches abi s) (op : Op)
    (ha : op.Admissible s) : Reaches abi (op.run abi s) :=
  .step h ⟨ha, rfl⟩

/-- An environment in which `rocket_open` succeeds. -/
def OpenEnv.smooth : OpenEnv := ⟨true, true, true, none, true, none⟩

/-- An environment in which a job without BOs is submitted; every task is readable. -/
def SubmitEnv.smooth : SubmitEnv where
  kzalloc := true
  schedInit := none
  tasksAlloc := true
  task := fun _ _ => some ⟨0, 1⟩
  inBos := ⟨true, true, fun _ => none⟩
  outBos := ⟨true, true, fun _ => none⟩
  bosAlloc := true
  lock := none
  inFences := fun _ => ⟨none, none⟩
  outFences := fun _ => ⟨none, none⟩

/-- One task, no BOs. -/
def JobDesc.oneTask : JobDesc := ⟨0x1000, 0, 0, 1, 16, 0, 0⟩

/-- The module loaded and one file opened. -/
def State.opened : State := (rocketOpen .smooth .init).2

/-- A BO with handle 1 is created on the first file, and a job that reads it is submitted. -/
def Op.makeBo : Op := .createBo ⟨none, .ok 1, none, .ok 0, none, 0⟩ 0 4096

def Op.useBo : Op :=
  .submitJob { SubmitEnv.smooth with inBos := ⟨true, true, fun _ => some 1⟩ } 0
    { JobDesc.oneTask with inBoHandleCount := 1 }

/-- One file, one BO, and one queued job on it. -/
def State.shared : State := Op.useBo.run ⟨16, 40⟩ (Op.makeBo.run ⟨16, 40⟩ .opened)

theorem Reaches.opened (abi : Abi) : Reaches abi .opened :=
  Reaches.run (.start rfl) (.open .smooth) trivial

end RocketNpu.Drm
