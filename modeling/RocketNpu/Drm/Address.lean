import RocketNpu.Drm.Pages
import RocketNpu.Drm.CreateBo

namespace RocketNpu.Drm
open Refcount Calls Call

variable {s : State} {env : CreateEnv} {size : BitVec 32} {f k b d p : ℕ} {w : BoHolder}
  {c : CreateEnding}

/-- The address that is mapped: without a node, the 0 of a zeroed object. -/
def CreateEnv.address (env : CreateEnv) : ℕ :=
  match env.insert with
  | .ok start => start
  | .error _ => 0

namespace State

theorem boPut_mapped (w : BoHolder) (b d : ℕ) (s : State) :
    ((s.boPut w b).domains d).mapped =
      if (s.bos b).kref.count = 1 ∧ d = (s.bos b).file then
        ((s.domains d).unmap (s.bos b).start (s.bos b).size).mapped
      else (s.domains d).mapped := by
  by_cases h1 : (s.bos b).kref.count = 1
  · by_cases hd : d = (s.bos b).file
    · simp [boPut, h1, hd, boFreed]
    · simp [boPut, h1, hd, boFreed]
  · simp [boPut, h1]

theorem boHandled_new (f : ℕ) (size : BitVec 32) (k : ℕ) (s : State) :
    ((s.boHandled f size k).bos s.nextBo).file = f ∧
      ((s.boHandled f size k).bos s.nextBo).domain = some f ∧
        ((s.boHandled f size k).bos s.nextBo).start = 0 ∧
          ((s.boHandled f size k).bos s.nextBo).kref.count = 1 := by
  refine ⟨boHandled_file f size k s, ?_, ?_, ?_⟩
  · simp [boHandled, boPut_bo, Ref.init, Ref.get]
  · simp [boHandled, boPut_bo]
  · rw [boHandled_kref]

theorem boHandled_ne (f : ℕ) (size : BitVec 32) (k : ℕ) (h : b ≠ s.nextBo) :
    (s.boHandled f size k).bos b = s.bos b := by
  simp [boHandled, boPut_ne h, h]

theorem boHandled_mapped (f : ℕ) (size : BitVec 32) (k : ℕ) (s : State) :
    ((s.boHandled f size k).domains f).mapped = (s.domains f).mapped := by
  simp [boHandled, boPut_mapped, Ref.init, Ref.get]

theorem boInserted_ne (h : b ≠ s.nextBo) : (s.boInserted env f size k).bos b = s.bos b := by
  have hb := boHandled_ne f size k h
  unfold boInserted drmMmInsertNode
  cases env.insert with
  | ok start => simpa [h] using hb
  | error e => exact hb

theorem boInserted_new (env : CreateEnv) (f : ℕ) (size : BitVec 32) (k : ℕ) (s : State) :
    ((s.boInserted env f size k).bos s.nextBo).file = f ∧
      ((s.boInserted env f size k).bos s.nextBo).domain = some f ∧
        ((s.boInserted env f size k).bos s.nextBo).start = env.address ∧
          ((s.boInserted env f size k).bos s.nextBo).kref.count = 1 := by
  obtain ⟨h1, h2, h3, h4⟩ := boHandled_new f size k s
  unfold boInserted drmMmInsertNode CreateEnv.address
  cases env.insert with
  | ok start => simp [h1, h2, h4]
  | error e => exact ⟨h1, h2, h3, h4⟩

theorem boInserted_nodes (env : CreateEnv) (f : ℕ) (size : BitVec 32) (k : ℕ) (s : State) :
    ((s.boInserted env f size k).files f).nodes =
      if env.insert.isOk then s.nextBo :: (s.files f).nodes else (s.files f).nodes := by
  have hfile := (boHandled_new f size k s).1
  have hnodes := boHandled_nodes f size k s
  unfold boInserted drmMmInsertNode
  cases env.insert with
  | ok start => simp [hfile, hnodes, Except.isOk, Except.toBool]
  | error e => simpa [Except.isOk, Except.toBool] using hnodes

theorem boInserted_mapped (env : CreateEnv) (f : ℕ) (size : BitVec 32) (k : ℕ) (s : State) :
    ((s.boInserted env f size k).domains f).mapped = (s.domains f).mapped := by
  have h := boHandled_mapped f size k s
  unfold boInserted drmMmInsertNode
  cases env.insert with
  | ok start => simpa using h
  | error e => exact h

theorem boMapped_mapped (env : CreateEnv) (f : ℕ) (size : BitVec 32) (k : ℕ) (s : State)
    (p : ℕ) : ((s.boMapped env f size k).domains f).mapped p = true ↔
      (s.domains f).mapped p = true ∨ InPages env.address (pageAlign size.toNat) p := by
  have hstart := (boInserted_new env f size k s).2.2.1
  have h := boInserted_mapped env f size k s
  simp only [boMapped, setDomain_domains, Function.update_self, IommuDomain.map_mapped, h, hstart]

theorem boMapped_new (env : CreateEnv) (f : ℕ) (size : BitVec 32) (k : ℕ) (s : State) :
    ((s.boMapped env f size k).bos s.nextBo).start = env.address :=
  (boInserted_new env f size k s).2.2.1

theorem afterCreate_ne (h : b ≠ s.nextBo) : (s.afterCreate env f size c).bos b = s.bos b := by
  cases c with
  | shmem e => rfl
  | handle e => simp [afterCreate, boPut_ne h, h]
  | sgt k e => simp [afterCreate, h, boHandled_ne f size k h]
  | unmapped k => simp [afterCreate, h, boInserted_ne h]
  | truncated k => simp [afterCreate, boMapped, h, boInserted_ne h]
  | done k => simp [afterCreate, boMapped, h, boInserted_ne h]

/-- The object of a call that gets as far as an object keeps its domain while it is held. -/
theorem afterCreate_live
    (hs : 0 < (s.bos s.nextBo).kref.count → (s.bos s.nextBo).domain = some (s.bos s.nextBo).file)
    (h : 0 < ((s.afterCreate env f size c).bos s.nextBo).kref.count) :
    ((s.afterCreate env f size c).bos s.nextBo).domain =
      some ((s.afterCreate env f size c).bos s.nextBo).file := by
  cases c with
  | shmem e => exact hs h
  | handle e => simp [afterCreate, boPut_bo, Ref.init, Ref.put] at h
  | sgt k e =>
    obtain ⟨h1, h2, -⟩ := boHandled_new f size k s
    simp [afterCreate, h1, h2]
  | unmapped k =>
    obtain ⟨h1, h2, -⟩ := boInserted_new env f size k s
    simp [afterCreate, h1, h2]
  | truncated k =>
    obtain ⟨h1, h2, -⟩ := boInserted_new env f size k s
    simp [afterCreate, boMapped, h1, h2]
  | done k =>
    obtain ⟨h1, h2, -⟩ := boInserted_new env f size k s
    simp [afterCreate, boMapped, h1, h2]

/-- The nodes of the others stay, whether the call works or not. -/
theorem afterCreate_nodes (h : b ≠ s.nextBo) :
    b ∈ ((s.afterCreate env f size c).files f).nodes ↔ b ∈ (s.files f).nodes := by
  have hins (k : ℕ) : b ∈ ((s.boInserted env f size k).files f).nodes ↔
      b ∈ (s.files f).nodes := by
    rw [boInserted_nodes]
    split_ifs
    · simp [h]
    · rfl
  have hfile (k : ℕ) := (boInserted_new env f size k s).1
  cases c with
  | shmem e => rfl
  | handle e => simp [afterCreate, boPut_files, Ref.init, h]
  | sgt k e => simp [afterCreate, boHandled_nodes]
  | unmapped k => simp [afterCreate, drmMmRemoveNode, hfile, List.mem_erase_of_ne h, hins]
  | truncated k =>
    simp [afterCreate, boMapped, drmMmRemoveNode, hfile, List.mem_erase_of_ne h, hins]
  | done k => simp [afterCreate, boMapped, hins]

/-- Without a handle the last reference goes, and frees an object that was never mapped. -/
theorem afterCreate_handle_mapped (env : CreateEnv) (f : ℕ) (size : BitVec 32) (s : State)
    (e : Errno) : ((s.afterCreate env f size (.handle e)).domains f).mapped =
      ((s.domains f).unmap 0 size.toNat).mapped := by
  have heq : ((s.afterCreate env f size (.handle e)).domains f).mapped =
      (((s.boMade f size).domains f).unmap 0 size.toNat).mapped := by
    simp [afterCreate, boPut_mapped, Ref.init]
  rw [heq]
  exact IommuDomain.unmap_congr (by simp)

/-- A mapping is lost only when there was no handle and the object was freed at once. -/
theorem afterCreate_mapped (hp : (s.domains f).mapped p = true)
    (hc : (∃ e, c = .handle e) → ((s.domains f).unmap 0 size.toNat).mapped p = true) :
    ((s.afterCreate env f size c).domains f).mapped p = true := by
  have hins (k : ℕ) : ((s.boInserted env f size k).domains f).mapped p = true := by
    rw [boInserted_mapped, hp]
  have hmap (k : ℕ) : ((s.boMapped env f size k).domains f).mapped p = true :=
    (boMapped_mapped env f size k s p).mpr (.inl hp)
  cases c with
  | shmem e => exact hp
  | handle e => rw [afterCreate_handle_mapped, hc ⟨e, rfl⟩]
  | sgt k e =>
    change ((s.boHandled f size k).domains f).mapped p = true
    rw [boHandled_mapped, hp]
  | unmapped k => simpa [afterCreate] using hins k
  | truncated k => simpa [afterCreate] using hmap k
  | done k => simpa [afterCreate] using hmap k

/-- What a call that returns 0 leaves in the new object. -/
theorem afterCreate_done (env : CreateEnv) (f : ℕ) (size : BitVec 32) (k : ℕ) (s : State) :
    ((s.afterCreate env f size (.done k)).bos s.nextBo).file = f ∧
      ((s.afterCreate env f size (.done k)).bos s.nextBo).start = env.address ∧
        ((s.afterCreate env f size (.done k)).bos s.nextBo).size = pageAlign size.toNat ∧
          ((s.afterCreate env f size (.done k)).bos s.nextBo).kref.count = 1 := by
  obtain ⟨h1, -, h3, h4⟩ := boInserted_new env f size k s
  simp [afterCreate, boMapped, h1, h3, h4]

theorem afterCreate_done_nodes (env : CreateEnv) (f : ℕ) (size : BitVec 32) (k : ℕ) (s : State) :
    ((s.afterCreate env f size (.done k)).files f).nodes =
      if env.insert.isOk then s.nextBo :: (s.files f).nodes else (s.files f).nodes :=
  boInserted_nodes env f size k s

end State

theorem CreateEnv.map_of_done (h : env.ending size = .done k) : env.map = none := by
  unfold ending at h
  split at h
  · cases h
  · cases h
  · cases h
  · cases h
  · assumption

end RocketNpu.Drm
