import RocketNpu.Drm.Gem

namespace RocketNpu.Drm
open Refcount Calls Call

/-- The sizes of the structures of the uapi header. -/
structure Abi where
  /-- `sizeof(struct drm_rocket_task)`. -/
  taskSize : ℕ
  /-- `sizeof(struct drm_rocket_job)`. -/
  jobSize : ℕ

/-- `kvmalloc` gives up above `INT_MAX` bytes. -/
def kvmallocMax : ℕ := intMax

/-- What a copy of an array of handles depends on: its two allocations, and the words of
user memory. -/
structure LookupEnv where
  objs : Bool
  handles : Bool
  word : BitVec 64 → Option (BitVec 32)

structure FenceEnv where
  reserve : Option Errno
  dependencies : Option Errno

/-- What `rocket_ioctl_submit_job` depends on outside. -/
structure SubmitEnv where
  kzalloc : Bool
  schedInit : Option Errno
  tasksAlloc : Bool
  /-- What the `i`-th copy of a task finds at an address. -/
  task : ℕ → BitVec 64 → Option Task
  inBos : LookupEnv
  outBos : LookupEnv
  bosAlloc : Bool
  lock : Option Errno
  inFences : ℕ → FenceEnv
  outFences : ℕ → FenceEnv

/-- The `i`-th element of an array of user space; the product is one of `u32`s. -/
def userElement (base : BitVec 64) (i : ℕ) (stride : BitVec 32) : BitVec 64 :=
  base + (BitVec.ofNat 32 i * stride).setWidth 64

/-- The copy of a task from an address of user space, and the check of it. -/
def copyTaskAt (env : SubmitEnv) (i : ℕ) (address : BitVec 64) : Except Errno Task :=
  match env.task i address with
  | none => .error .efault
  | some task => if task.regcmdCount = 0 then .error .einval else .ok task

/-- One turn of the loop of `rocket_copy_tasks`. -/
def copyTask (env : SubmitEnv) (desc : JobDesc) (i : ℕ) : Except Errno Task :=
  copyTaskAt env i (userElement desc.tasks i desc.taskStructSize)

def copyTasks (env : SubmitEnv) (desc : JobDesc) : Except Errno (List Task) :=
  (List.range desc.taskCount.toNat).mapM (copyTask env desc)

/-- `sizeof(struct rocket_task)` is 16. -/
def tasksFit (env : SubmitEnv) (desc : JobDesc) : Bool :=
  env.tasksAlloc && 16 * desc.taskCount.toNat ≤ kvmallocMax

def rocketCopyTasks (abi : Abi) (env : SubmitEnv) (desc : JobDesc) (j : ℕ) : DrmCall PUnit := do
  if desc.taskStructSize.toNat < abi.taskSize then fail .einval
  modify (·.setJob j ({ · with taskCount := desc.taskCount }))
  if desc.taskCount = 0 then return
  if !tasksFit env desc then fail .enomem
  modify (·.setJob j fun job => { job with tasks := some [], tasksAllocs := job.tasksAllocs + 1 })
  match copyTasks env desc with
  | .ok tasks => modify (·.setJob j ({ · with tasks := some tasks }))
  | .error e =>
    -- freed here, and `tasks` keeps pointing at it
    modify (·.setJob j fun job => { job with tasksFrees := job.tasksFrees + 1 })
    fail e

/-- The BOs of an array of handles, up to the first handle that is unknown. -/
def lookupHandles (table : List (ℕ × ℕ)) : List (BitVec 32) → List ℕ × Option Errno
  | [] => ([], none)
  | h :: hs =>
    match table.lookup h.toNat with
    | none => ([], some .enoent)
    | some b => (b :: (lookupHandles table hs).1, (lookupHandles table hs).2)

/-- What `drm_gem_objects_lookup` publishes and returns. -/
def objectsLookup (env : LookupEnv) (table : List (ℕ × ℕ)) (base : BitVec 64)
    (count : BitVec 32) : Option (List ℕ) × Option Errno :=
  if count = 0 then (none, none)
  else if !(env.objs && 8 * count.toNat ≤ kvmallocMax) then (none, some .enomem)
  else if !env.handles then (some [], some .enomem)
  else
    match (List.range count.toNat).mapM fun i => env.word (base + BitVec.ofNat 64 (4 * i)) with
    | none => (some [], some .efault)
    | some hs => (some (lookupHandles table hs).1, (lookupHandles table hs).2)

namespace State

/-- A job's references on the BOs it names, one for each time it names them. -/
def takeRefs (j : ℕ) (bs : List ℕ) (s : State) : State :=
  { s.setJob j fun job => { job with taken := job.taken ++ bs } with
    bos := fun b => { s.bos b with kref := (s.bos b).kref.getMany (.job j) (bs.count b) } }

/-- `kzalloc_obj` and `kref_init`. -/
def newJob (desc : JobDesc) (s : State) : State :=
  { s with
    jobs := Function.update s.jobs s.nextJob { desc := desc }
    nextJob := s.nextJob + 1 }

/-- `drm_sched_entity_push_job`, with the reference the scheduler gets. -/
def pushJob (f j : ℕ) (s : State) : State :=
  (s.setJob j fun job => { job with refcount := job.refcount + 1, stage := .queued }).setFile f
    fun file => { file with pushed := file.pushed ++ [j] }

end State

def drmGemObjectsLookup (env : LookupEnv) (f j : ℕ) (base : BitVec 64) (count : BitVec 32)
    (publish : Option (List ℕ) → Job → Job) : DrmCall PUnit := do
  let table ← read fun s => (s.files f).handles
  let (objs, ret) := objectsLookup env table base count
  modify (·.takeRefs j (objs.getD []))
  modify (·.setJob j (publish objs))
  orFail ret

/-- The first error on the way through `n` BOs. -/
def rocketAcquireObjectFences (env : ℕ → FenceEnv) (n : ℕ) : Option Errno :=
  (List.range n).findSome? fun i => (env i).reserve <|> (env i).dependencies

def rocketJobPush (env : SubmitEnv) (f j : ℕ) : DrmCall PUnit := do
  let job ← read (·.jobs j)
  -- the array may be NULL here: nobody looks
  if !env.bosAlloc ∧ job.inBoCount + job.outBoCount ≠ 0 then die .nullCopy
  orFail env.lock
  orFail (rocketAcquireObjectFences env.inFences job.inBoCount)
  orFail (rocketAcquireObjectFences env.outFences job.outBoCount)
  modify (·.pushJob f j)

/-- `drm_gem_object_put` on a BO of the job. -/
def rocketBoPut (j b : ℕ) : DrmCall PUnit := do
  drmGemObjectPut (.job j) b
  modify (·.setJob j fun job => { job with dropped := job.dropped ++ [b] })

def rocketJobCleanup (j : ℕ) : DrmCall PUnit := do
  let job ← read (·.jobs j)
  -- unlike the fields below, `domain` is not looked at first
  rocketIommuDomainPut (.job j) job.domain
  each (rocketBoPut j) job.ins
  each (rocketBoPut j) job.outs
  -- `kvfree(NULL)` does nothing
  modify (·.setJob j fun job =>
    { job with tasksFrees := job.tasksFrees + if job.tasks.isSome then 1 else 0 })
  modify (·.setJob j fun job => { job with frees := job.frees + 1 })

/-- The last reference runs `rocket_job_cleanup`. -/
def rocketJobPut (j : ℕ) : DrmCall PUnit := do
  let job ← read (·.jobs j)
  modify (·.setJob j fun job => { job with refcount := job.refcount - 1 })
  if job.refcount = 1 then rocketJobCleanup j

def drmSchedJobCleanup (j : ℕ) : DrmCall PUnit :=
  modify (·.setJob j fun job => { job with schedCleanups := job.schedCleanups + 1 })

def rocketJobFree (j : ℕ) : DrmCall PUnit := do
  drmSchedJobCleanup j
  rocketJobPut j

/-- `rocket_ioctl_submit_job` from the copy of the tasks to the count of the output BOs. -/
def prepareJob (abi : Abi) (env : SubmitEnv) (f : ℕ) (desc : JobDesc) (j : ℕ) :
    DrmCall PUnit := do
  rocketCopyTasks abi env desc j
  drmGemObjectsLookup env.inBos f j desc.inBoHandles desc.inBoHandleCount
    fun objs job => { job with inBos := objs }
  modify (·.setJob j ({ · with inBoCount := desc.inBoHandleCount.toNat }))
  drmGemObjectsLookup env.outBos f j desc.outBoHandles desc.outBoHandleCount
    fun objs job => { job with outBos := objs }
  modify (·.setJob j ({ · with outBoCount := desc.outBoHandleCount.toNat }))

/-- The rest of it, up to the push. -/
def prepareAndPush (abi : Abi) (env : SubmitEnv) (f : ℕ) (desc : JobDesc) (j : ℕ) :
    DrmCall PUnit := do
  prepareJob abi env f desc j
  modify fun s => (s.domainGet (.job j) f).setJob j ({ · with domain := some f })
  rocketJobPush env f j

def rocketIoctlSubmitJob (abi : Abi) (env : SubmitEnv) (f : ℕ) (desc : JobDesc) :
    DrmCall PUnit :=
  if desc.taskCount = 0 then fail .einval
  else if !env.kzalloc then fail .enomem
  else do
    let j ← read (·.nextJob)
    modify (·.newJob desc)
    match env.schedInit with
    | some e =>
      rocketJobPut j
      fail e
    | none =>
      modify (·.setJob j fun job => { job with schedInits := job.schedInits + 1 })
      match ← attempt (prepareAndPush abi env f desc j) with
      | .error e =>
        drmSchedJobCleanup j
        rocketJobPut j
        fail e
      | .ok _ => rocketJobPut j

/-- A `drm_rocket_submit`. -/
structure SubmitArgs where
  jobs : BitVec 64
  jobCount : BitVec 32
  jobStructSize : BitVec 32
  reserved : BitVec 64

/-- What `rocket_ioctl_submit` depends on outside. -/
structure SubmitAllEnv where
  jobsAlloc : Bool
  /-- What the `i`-th copy of a job finds at an address. -/
  job : ℕ → BitVec 64 → Option JobDesc
  submit : ℕ → SubmitEnv

/-- The loop that copies the jobs. -/
def copyJobs (env : SubmitAllEnv) (args : SubmitArgs) : Option (List JobDesc) :=
  (List.range args.jobCount.toNat).mapM fun i =>
    env.job i (userElement args.jobs i args.jobStructSize)

/-- The loop that submits them, from the `i`-th on; it drops what each submission returns. -/
def submitFrom (abi : Abi) (env : ℕ → SubmitEnv) (f : ℕ) : ℕ → List JobDesc → DrmCall PUnit
  | _, [] => return
  | i, desc :: descs => do
    -- what it returns is lost; only a call that dies ends the loop
    let _ ← attempt (rocketIoctlSubmitJob abi (env i) f desc)
    submitFrom abi env f (i + 1) descs

def rocketIoctlSubmit (abi : Abi) (env : SubmitAllEnv) (f : ℕ) (args : SubmitArgs) :
    DrmCall PUnit :=
  if args.jobCount = 0 then return
  else if args.jobStructSize.toNat < abi.jobSize then fail .einval
  else if args.reserved ≠ 0 then fail .einval
  else if !(env.jobsAlloc && abi.jobSize * args.jobCount.toNat ≤ kvmallocMax) then fail .enomem
  else
    match copyJobs env args with
    | none => fail .efault
    | some descs => submitFrom abi env.submit f 0 descs

end RocketNpu.Drm
