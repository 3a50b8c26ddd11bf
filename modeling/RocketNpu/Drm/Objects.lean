import RocketNpu.Drm.Files

namespace RocketNpu.Drm
open Refcount Calls Call

variable {s : State} {b j : ℕ} {w : BoHolder}

namespace State

/-- After `rocket_gem_bo_free` of a BO whose domain is that of its file. -/
def boFreed (b : ℕ) (s : State) : State :=
  let bo := s.bos b
  (((((s.expect (s.files bo.file).priv (.privGone b)).setDomain bo.file
    (.unmap bo.start bo.size)).drmMmRemoveNode b).domainPut (.bo b) bo.file).setBo b
    ({ · with domain := none })).drmGemShmemFree b

/-- After `drm_gem_object_put` of such a BO. -/
def boPut (w : BoHolder) (b : ℕ) (s : State) : State :=
  let t := s.setBo b fun bo => { bo with kref := bo.kref.put w }
  if (s.bos b).kref.count = 1 then t.boFreed b else t

/-- After a job's puts on `bs`, in this order. -/
def bosPut (j : ℕ) : List ℕ → State → State
  | [], s => s
  | b :: bs, s =>
    bosPut j bs ((s.boPut (.job j) b).setJob j fun job =>
      { job with dropped := job.dropped ++ [b] })

end State

theorem rocketGemBoFree_live (h : (s.bos b).domain = some (s.bos b).file) :
    rocketGemBoFree b s = (.ok ⟨⟩, s.boFreed b) := by
  simp only [rocketGemBoFree, bind_apply, read_apply, h, modify_apply, rocketIommuDomainPut,
    State.boFreed]

theorem drmGemObjectPut_live
    (h : (s.bos b).kref.count = 1 → (s.bos b).domain = some (s.bos b).file) :
    drmGemObjectPut w b s = (.ok ⟨⟩, s.boPut w b) := by
  simp only [drmGemObjectPut, bind_apply, read_apply, modify_apply, State.boPut]
  split_ifs with h1
  · exact rocketGemBoFree_live (by simpa using h h1)
  · rfl

namespace State

@[simp] theorem boPut_jobs : (s.boPut w b).jobs = s.jobs := by
  unfold boPut; split <;> rfl

@[simp] theorem boPut_nextFile : (s.boPut w b).nextFile = s.nextFile := by
  unfold boPut; split <;> rfl

@[simp] theorem boPut_nextBo : (s.boPut w b).nextBo = s.nextBo := by
  unfold boPut; split <;> rfl

@[simp] theorem boPut_nextJob : (s.boPut w b).nextJob = s.nextJob := by
  unfold boPut; split <;> rfl

theorem boPut_files (f : ℕ) : (s.boPut w b).files f =
    { s.files f with
      nodes := if (s.bos b).kref.count = 1 ∧ f = (s.bos b).file then (s.files f).nodes.erase b
        else (s.files f).nodes } := by
  by_cases h1 : (s.bos b).kref.count = 1 <;> by_cases hf : f = (s.bos b).file <;>
    simp [boPut, h1, hf, boFreed, drmMmRemoveNode]

@[simp] theorem boPut_handles (f : ℕ) :
    ((s.boPut w b).files f).handles = (s.files f).handles := by
  rw [boPut_files]

@[simp] theorem boPut_priv (f : ℕ) : ((s.boPut w b).files f).priv = (s.files f).priv := by
  rw [boPut_files]

@[simp] theorem boPut_pushed (f : ℕ) : ((s.boPut w b).files f).pushed = (s.files f).pushed := by
  rw [boPut_files]

theorem boPut_bo : (s.boPut w b).bos b =
    { s.bos b with
      kref := (s.bos b).kref.put w
      domain := if (s.bos b).kref.count = 1 then none else (s.bos b).domain
      frees := (s.bos b).frees + if (s.bos b).kref.count = 1 then 1 else 0 } := by
  by_cases h1 : (s.bos b).kref.count = 1 <;>
    simp [boPut, h1, boFreed]

theorem boPut_ne {b' : ℕ} (h : b' ≠ b) : (s.boPut w b).bos b' = s.bos b' := by
  by_cases h1 : (s.bos b).kref.count = 1 <;>
    simp [boPut, h1, h, boFreed]

@[simp] theorem boPut_file (b' : ℕ) : ((s.boPut w b).bos b').file = (s.bos b').file := by
  by_cases h : b' = b
  · subst h
    rw [boPut_bo]
  · rw [boPut_ne h]

/-- The references of everybody else stay. -/
theorem boPut_count_ne {w' : BoHolder} (hw : w' ≠ w) {b' : ℕ} :
    ((s.boPut w b).bos b').kref.holders.count w' = (s.bos b').kref.holders.count w' := by
  by_cases hb : b' = b
  · subst hb
    rw [boPut_bo]
    exact List.count_erase_of_ne hw
  · rw [boPut_ne hb]

theorem boPut_domain_kref (d : ℕ) : ((s.boPut w b).domains d).kref =
    if (s.bos b).kref.count = 1 ∧ d = (s.bos b).file then (s.domains d).kref.put (.bo b)
    else (s.domains d).kref := by
  by_cases h1 : (s.bos b).kref.count = 1 <;> by_cases hd : d = (s.bos b).file <;>
    simp [boPut, h1, hd, boFreed, IommuDomain.unmap, apply_ite IommuDomain.kref]

theorem boPut_domain_freed (d : ℕ) : ((s.boPut w b).domains d).freed =
    ((s.domains d).freed || ((s.bos b).kref.count == 1 && d == (s.bos b).file &&
      (s.domains d).kref.count == 1)) := by
  by_cases h1 : (s.bos b).kref.count = 1 <;> by_cases hd : d = (s.bos b).file <;>
    simp [boPut, h1, hd, boFreed, IommuDomain.unmap, apply_ite IommuDomain.freed,
      apply_ite IommuDomain.kref]

/-- What goes wrong when the last reference is put. -/
theorem mem_boPut_faults {x : Fault} (h : x ∈ (s.boPut w b).faults) :
    x ∈ s.faults ∨ (s.bos b).kref.count = 1 ∧
      (x = .privGone b ∧ ¬ (s.files (s.bos b).file).priv ∨
        x = .removedUninserted b ∧ b ∉ (s.files (s.bos b).file).nodes ∨
        x = .putWithout (.bo b) ∧ .bo b ∉ (s.domains (s.bos b).file).kref.holders) := by
  by_cases h1 : (s.bos b).kref.count = 1
  · simp [boPut, h1, boFreed, IommuDomain.unmap, apply_ite IommuDomain.kref] at h
    split_ifs at h <;> simp_all <;> tauto
  · simp [boPut, h1] at h
    exact .inl h

end State

end RocketNpu.Drm
