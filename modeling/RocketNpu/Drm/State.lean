import Mathlib.Tactic.Simps.Basic
import Mathlib.Logic.Function.Basic
import RocketNpu.Errno
import RocketNpu.Lib.Call
import RocketNpu.Lib.Refcount

namespace RocketNpu.Drm
open Refcount Calls

/-- What a call can die of: `domain` is NULL where it is followed, or an array that was not
allocated is written. -/
inductive Oops where
  | nullDomain | nullCopy | nullScheds
deriving DecidableEq, Repr

/-- Who holds a reference on a file's `rocket_iommu_domain`. -/
inductive DomainHolder where
  | file
  | bo (b : ℕ)
  | job (j : ℕ)
deriving DecidableEq, Repr

/-- Who holds a reference on a GEM object: `rocket_ioctl_create_bo` while it works, the
handle table, or a job. -/
inductive BoHolder where
  | creator
  | handle (h : ℕ)
  | job (j : ℕ)
deriving DecidableEq, Repr

/-- What the code does and must not do, for the record. -/
inductive Fault where
  /-- `drm_mm_remove_node` on a node that is not in the `drm_mm`. -/
  | removedUninserted (b : ℕ)
  /-- `rocket_gem_bo_free` after the BO's `rocket_file_priv` was freed. -/
  | privGone (b : ℕ)
  /-- `drm_mm_takedown` with nodes in the `drm_mm`. -/
  | nodesLeft (f : ℕ)
  /-- `rocket_iommu_domain_put` by one who holds no reference. -/
  | putWithout (w : DomainHolder)
deriving DecidableEq, Repr

/-- A `rocket_iommu_domain`, under the number of the file it was made for. -/
structure IommuDomain where
  kref : Ref DomainHolder
  freed : Bool
  /-- The pages of IOVA space that are mapped. -/
  mapped : ℕ → Bool

/-- A DRM file with its `rocket_file_priv`. -/
structure File where
  /-- The `rocket_file_priv` exists. -/
  priv : Bool
  /-- The BOs with a node in `mm`. -/
  nodes : List ℕ
  handles : List (ℕ × ℕ)
  /-- Every job ever pushed to `sched_entity`, in this order. -/
  pushed : List ℕ

/-- A `rocket_gem_object`. -/
structure Bo where
  /-- `driver_priv`. -/
  file : ℕ
  domain : Option ℕ
  start : ℕ
  size : ℕ
  kref : Ref BoHolder
  /-- Runs of `drm_gem_shmem_free`. -/
  frees : ℕ

structure Task where
  regcmd : BitVec 64
  regcmdCount : BitVec 32
deriving DecidableEq, Repr

/-- A `drm_rocket_job`, as user space wrote it. -/
structure JobDesc where
  tasks : BitVec 64
  inBoHandles : BitVec 64
  outBoHandles : BitVec 64
  taskCount : BitVec 32
  taskStructSize : BitVec 32
  inBoHandleCount : BitVec 32
  outBoHandleCount : BitVec 32
deriving DecidableEq, Repr

/-- How far the scheduler is with a job: `taken` is off the entity and not yet given to
`free_job`. -/
inductive Stage where
  | preparing | queued | taken | freed
deriving DecidableEq, Repr

/-- A `rocket_job`; the fields from `schedInits` on are the record of what was done to it. -/
structure Job where
  desc : JobDesc
  tasks : Option (List Task) := none
  taskCount : BitVec 32 := 0
  inBos : Option (List ℕ) := none
  inBoCount : ℕ := 0
  outBos : Option (List ℕ) := none
  outBoCount : ℕ := 0
  domain : Option ℕ := none
  refcount : ℕ := 1
  stage : Stage := .preparing
  schedInits : ℕ := 0
  schedCleanups : ℕ := 0
  tasksAllocs : ℕ := 0
  tasksFrees : ℕ := 0
  /-- GEM references the handle lookups took. -/
  taken : List ℕ := []
  dropped : List ℕ := []
  frees : ℕ := 0

/-- The BOs `rocket_job_cleanup` goes through: the array when there is one, as far as the
count says. -/
def Job.ins (job : Job) : List ℕ := (job.inBos.getD []).take job.inBoCount

def Job.outs (job : Job) : List ℕ := (job.outBos.getD []).take job.outBoCount

/-- The DRM side of the driver. Files, BOs and jobs are numbered as they come. -/
@[ext] structure State where
  files : ℕ → File
  domains : ℕ → IommuDomain
  bos : ℕ → Bo
  jobs : ℕ → Job
  nextFile : ℕ
  nextBo : ℕ
  nextJob : ℕ
  faults : List Fault

/-- What a call of the driver does to the state, with the error codes it returns. -/
abbrev DrmCall := Call State Errno Oops

namespace State

variable (s : State)

@[simps -fullyApplied] def setFile (f : ℕ) (g : File → File) : State :=
  { s with files := Function.update s.files f (g (s.files f)) }

@[simps -fullyApplied] def setDomain (d : ℕ) (g : IommuDomain → IommuDomain) : State :=
  { s with domains := Function.update s.domains d (g (s.domains d)) }

@[simps -fullyApplied] def setBo (b : ℕ) (g : Bo → Bo) : State :=
  { s with bos := Function.update s.bos b (g (s.bos b)) }

@[simps -fullyApplied] def setJob (j : ℕ) (g : Job → Job) : State :=
  { s with jobs := Function.update s.jobs j (g (s.jobs j)) }

theorem setJob_setJob (j : ℕ) (g g' : Job → Job) :
    (s.setJob j g).setJob j g' = s.setJob j fun job => g' (g job) := by
  simp [setJob]

/-- `x` goes on record unless `p` holds. -/
@[simps -fullyApplied] def expect (p : Prop) [Decidable p] (x : Fault) : State :=
  { s with faults := if p then s.faults else x :: s.faults }

/-- The jobs that wait on the entity. -/
def queue (f : ℕ) : List ℕ := (s.files f).pushed.filter fun j => (s.jobs j).stage = .queued

end State

end RocketNpu.Drm
