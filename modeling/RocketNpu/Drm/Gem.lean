import RocketNpu.Drm.State

namespace RocketNpu.Drm
open Refcount Calls Call

def pageSize : ℕ := 4096

/-- The largest `int`. -/
def intMax : ℕ := 0x7fffffff

def pageAlign (n : ℕ) : ℕ := (n + (pageSize - 1)) / pageSize * pageSize

/-- `iommu_map_sgtable` of `len` bytes. -/
def IommuDomain.map (start len : ℕ) (d : IommuDomain) : IommuDomain :=
  { d with
    mapped := fun p => d.mapped p || (start / pageSize ≤ p && p < (start + len) / pageSize) }

/-- `iommu_unmap` refuses what is not aligned, and stops at the first page that is not
mapped. -/
def IommuDomain.unmap (start size : ℕ) (d : IommuDomain) : IommuDomain :=
  if start % pageSize = 0 ∧ size % pageSize = 0 then
    { d with
      mapped := fun p => d.mapped p &&
        !(start / pageSize ≤ p && p < (start + size) / pageSize &&
          (List.range (p - start / pageSize)).all fun k => d.mapped (start / pageSize + k)) }
  else d

namespace State

/-- `kref_get` on a file's domain. -/
@[simps! -fullyApplied]
def domainGet (w : DomainHolder) (f : ℕ) (s : State) : State :=
  s.setDomain f fun d => { d with kref := d.kref.get w }

/-- `kref_put`; the last one runs `rocket_iommu_domain_destroy`. -/
@[simps! -fullyApplied]
def domainPut (w : DomainHolder) (f : ℕ) (s : State) : State :=
  (s.expect (w ∈ (s.domains f).kref.holders) (.putWithout w)).setDomain f fun d =>
    { d with kref := d.kref.put w, freed := d.freed || d.kref.count == 1 }

/-- `drm_mm_insert_node_generic`; its error code is overwritten. -/
def drmMmInsertNode (reply : Except Errno ℕ) (b : ℕ) (s : State) : State :=
  match reply with
  | .ok start =>
    (s.setFile (s.bos b).file fun f => { f with nodes := b :: f.nodes }).setBo b fun bo =>
      { bo with start := start }
  | .error _ => s

@[simps! -fullyApplied domains bos jobs nextFile nextBo nextJob faults]
def drmMmRemoveNode (b : ℕ) (s : State) : State :=
  (s.expect (b ∈ (s.files (s.bos b).file).nodes) (.removedUninserted b)).setFile (s.bos b).file
    fun f => { f with nodes := f.nodes.erase b }

@[simps! -fullyApplied]
def drmGemShmemFree (b : ℕ) (s : State) : State :=
  s.setBo b fun bo => { bo with frees := bo.frees + 1 }

@[simp] theorem drmMmInsertNode_handles (reply : Except Errno ℕ) (b f : ℕ) (s : State) :
    ((s.drmMmInsertNode reply b).files f).handles = (s.files f).handles := by
  cases reply with
  | error e => rfl
  | ok start => by_cases hf : f = (s.bos b).file <;> simp [drmMmInsertNode, hf]

@[simp] theorem drmMmRemoveNode_handles (b f : ℕ) (s : State) :
    ((s.drmMmRemoveNode b).files f).handles = (s.files f).handles := by
  by_cases hf : f = (s.bos b).file <;> simp [drmMmRemoveNode, hf]

/-- `drm_gem_shmem_create`, with the fields `rocket_ioctl_create_bo` fills in after it. -/
@[simps! -fullyApplied]
def drmGemShmemCreate (f : ℕ) (size : BitVec 32) (s : State) : State :=
  { s with
    bos := Function.update s.bos s.nextBo
      { file := f, domain := some f, start := 0, size := size.toNat, kref := .init .creator,
        frees := 0 }
    nextBo := s.nextBo + 1 }

end State

/-- `domain` is NULL when nobody set the field: `kref_put` then writes to address 8. -/
def rocketIommuDomainPut (w : DomainHolder) : Option ℕ → DrmCall PUnit
  | some f => modify (·.domainPut w f)
  | none => do
    modify (·.expect False (.putWithout w))
    die .nullDomain

def rocketGemBoFree (b : ℕ) : DrmCall PUnit := do
  let bo ← read (·.bos b)
  match bo.domain with
  | none => die .nullDomain
  | some d =>
    -- `driver_priv` is followed from here on
    modify fun s => s.expect (s.files bo.file).priv (.privGone b)
    modify (·.setDomain d (.unmap bo.start bo.size))
    modify (·.drmMmRemoveNode b)
    rocketIommuDomainPut (.bo b) bo.domain
    modify (·.setBo b ({ · with domain := none }))
    modify (·.drmGemShmemFree b)

/-- The last reference runs `rocket_gem_bo_free`. -/
def drmGemObjectPut (w : BoHolder) (b : ℕ) : DrmCall PUnit := do
  let bo ← read (·.bos b)
  modify (·.setBo b fun bo => { bo with kref := bo.kref.put w })
  if bo.kref.count = 1 then rocketGemBoFree b

/-- The handle has a reference of its own. -/
def drmGemHandleCreate (reply : Except Errno ℕ) (f b : ℕ) : DrmCall ℕ := do
  let h ← ofExcept reply
  modify (·.setFile f fun file => { file with handles := (h, b) :: file.handles })
  modify (·.setBo b fun bo => { bo with kref := bo.kref.get (.handle h) })
  return h

/-- What `rocket_ioctl_create_bo` depends on outside. -/
structure CreateEnv where
  shmem : Option Errno
  handle : Except Errno ℕ
  sgt : Option Errno
  /-- The address the node gets. -/
  insert : Except Errno ℕ
  map : Option Errno
  vmaOffset : ℕ

/-- What `rocket_ioctl_create_bo` writes to its arguments. -/
structure CreateReply where
  handle : ℕ
  offset : ℕ
  dmaAddress : ℕ

/-- The length `iommu_map_sgtable` returns, or its error. -/
def iommuMapSgtable (err : Option Errno) (d start len : ℕ) : DrmCall ℕ := do
  orFail err
  modify (·.setDomain d (.map start len))
  return len

/-- The mapping of a new BO, and the check of the length: an `ssize_t` goes into an `int`,
which is then compared with a `u32`. -/
def mapBo (env : CreateEnv) (f b : ℕ) (size : BitVec 32) : DrmCall PUnit := do
  let start ← read fun s => (s.bos b).start
  match ← attempt (iommuMapSgtable env.map f start (pageAlign size.toNat)) with
  | .error _ => fail .enomem
  | .ok len =>
    let ret := BitVec.ofNat 32 len
    if ret.toInt < 0 ∨ ret < size then fail .enomem
    else modify (·.setBo b fun bo => { bo with size := ret.toNat })

def rocketIoctlCreateBo (env : CreateEnv) (f : ℕ) (size : BitVec 32) :
    DrmCall CreateReply := do
  orFail env.shmem
  let b ← read (·.nextBo)
  modify fun s => (s.drmGemShmemCreate f size).domainGet (.bo b) f
  onError (do
      let ret ← attempt (drmGemHandleCreate env.handle f b)
      -- the creator's reference goes whether there is a handle or not
      drmGemObjectPut .creator b
      let h ← ofExcept ret
      orFail env.sgt
      -- a failure here is lost: the next call overwrites `ret`
      modify (·.drmMmInsertNode env.insert b)
      onError (mapBo env f b size) (modify (·.drmMmRemoveNode b))
      let start ← read fun s => (s.bos b).start
      return ⟨h, env.vmaOffset, start⟩)
    (modify (·.drmGemShmemFree b))

end RocketNpu.Drm
