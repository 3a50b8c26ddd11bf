import RocketNpu.Drm.Wf

namespace RocketNpu.Drm
open Refcount Calls Call

variable {s : State} {env : CreateEnv} {e : Errno} {f b k : ℕ}
  {size : BitVec 32}

/-- How `rocket_ioctl_create_bo` ends: with the object not created, without a handle, and
with the handle `k` without its pages, not mapped, with the length rejected, or done. -/
inductive CreateEnding where
  | shmem (e : Errno)
  | handle (e : Errno)
  | sgt (k : ℕ) (e : Errno)
  | unmapped (k : ℕ)
  | truncated (k : ℕ)
  | done (k : ℕ)

def CreateEnv.ending (env : CreateEnv) (size : BitVec 32) : CreateEnding :=
  match env.shmem, env.handle, env.sgt, env.map with
  | some e, _, _, _ => .shmem e
  | none, .error e, _, _ => .handle e
  | none, .ok k, some e, _ => .sgt k e
  | none, .ok k, none, some _ => .unmapped k
  | none, .ok k, none, none => if pageAlign size.toNat ≤ intMax then .done k else .truncated k

/-- The handle in the table when the call ends. -/
def CreateEnding.entered : CreateEnding → Option ℕ
  | .shmem _ | .handle _ => none
  | .sgt k _ | .unmapped k | .truncated k | .done k => some k

theorem CreateEnv.ending_clean_iff (env : CreateEnv) (size : BitVec 32) :
    ((∃ e, env.ending size = .shmem e) ∨ ∃ k, env.ending size = .done k) ↔
      env.shmem.isSome ∨ (∃ k, env.handle = .ok k) ∧ env.sgt = none ∧ env.map = none ∧
        pageAlign size.toNat ≤ intMax := by
  unfold ending
  cases env.shmem <;> cases env.handle <;> cases env.sgt <;> cases env.map <;> simp
  split <;> simp_all

theorem le_pageAlign (n : ℕ) : n ≤ pageAlign n := by
  unfold pageAlign pageSize
  omega

theorem pageAlign_lt (n : ℕ) : pageAlign n < n + pageSize := by
  unfold pageAlign pageSize
  omega

/-- The `int` is negative or too small from 2 GiB on. -/
theorem length_rejected_iff (size : BitVec 32) :
    ((BitVec.ofNat 32 (pageAlign size.toNat)).toInt < 0 ∨
      BitVec.ofNat 32 (pageAlign size.toNat) < size) ↔ intMax < pageAlign size.toNat := by
  have hle := le_pageAlign size.toNat
  have hmod : pageAlign size.toNat % pageSize = 0 := Nat.mul_mod_left _ _
  have hlt := size.isLt
  have hub := pageAlign_lt size.toNat
  rw [BitVec.toInt_eq_toNat_cond, BitVec.lt_def, BitVec.toNat_ofNat]
  unfold pageSize at hmod hub
  unfold intMax
  split <;> omega

namespace State

/-- The new object, before it has a handle. -/
@[simps! -fullyApplied]
def boMade (f : ℕ) (size : BitVec 32) (s : State) : State :=
  (s.drmGemShmemCreate f size).domainGet (.bo s.nextBo) f

/-- The new object, held by its handle alone. -/
def boHandled (f : ℕ) (size : BitVec 32) (k : ℕ) (s : State) : State :=
  (((s.boMade f size).setFile f fun file =>
    { file with handles := (k, s.nextBo) :: file.handles }).setBo s.nextBo fun bo =>
      { bo with kref := bo.kref.get (.handle k) }).boPut .creator s.nextBo

def boInserted (env : CreateEnv) (f : ℕ) (size : BitVec 32) (k : ℕ) (s : State) : State :=
  (s.boHandled f size k).drmMmInsertNode env.insert s.nextBo

def boMapped (env : CreateEnv) (f : ℕ) (size : BitVec 32) (k : ℕ) (s : State) : State :=
  let t := s.boInserted env f size k
  t.setDomain f (.map (t.bos s.nextBo).start (pageAlign size.toNat))

/-- What an ending leaves behind. -/
def afterCreate (env : CreateEnv) (f : ℕ) (size : BitVec 32) (s : State) :
    CreateEnding → State
  | .shmem _ => s
  | .handle _ => ((s.boMade f size).boPut .creator s.nextBo).drmGemShmemFree s.nextBo
  | .sgt k _ => (s.boHandled f size k).drmGemShmemFree s.nextBo
  | .unmapped k =>
    ((s.boInserted env f size k).drmMmRemoveNode s.nextBo).drmGemShmemFree s.nextBo
  | .truncated k =>
    ((s.boMapped env f size k).drmMmRemoveNode s.nextBo).drmGemShmemFree s.nextBo
  | .done k =>
    (s.boMapped env f size k).setBo s.nextBo fun bo => { bo with size := pageAlign size.toNat }

end State

/-- The code a call returns. -/
def CreateEnding.outcome {α : Type} (reply : ℕ → α) : CreateEnding → Outcome Errno Oops α
  | .shmem e | .handle e | .sgt _ e => .error e
  | .unmapped _ | .truncated _ => .error .enomem
  | .done k => .ok (reply k)

theorem mapBo_eq (env : CreateEnv) (f b : ℕ) (size : BitVec 32) (s : State) :
    mapBo env f b size s =
      match env.map with
      | some _ => (.error .enomem, s)
      | none =>
        let t := s.setDomain f (.map (s.bos b).start (pageAlign size.toNat))
        if pageAlign size.toNat ≤ intMax then
          (.ok ⟨⟩, t.setBo b fun bo => { bo with size := pageAlign size.toNat })
        else (.error .enomem, t) := by
  cases hm : env.map with
  | some e =>
    simp [mapBo, bind_apply, iommuMapSgtable, attempt, hm]
  | none =>
    simp only [mapBo, bind_apply, read_apply, iommuMapSgtable, attempt, hm, orFail_none,
      modify_apply, pure_apply, length_rejected_iff]
    by_cases hl : pageAlign size.toNat ≤ intMax
    · -- the length fits, and is stored as it is
      have hmod : (BitVec.ofNat 32 (pageAlign size.toNat)).toNat = pageAlign size.toNat := by
        rw [BitVec.toNat_ofNat]
        unfold intMax at hl
        omega
      rw [if_neg (Nat.not_lt.mpr hl), if_pos hl, hmod, modify_apply]
    · rw [if_pos (Nat.lt_of_not_le hl), if_neg hl, fail_apply]

/-- The creator's reference can be dropped: `domain` is set. -/
theorem put_creator {t : State} {n : ℕ} (h : (t.bos n).domain = some (t.bos n).file) :
    drmGemObjectPut .creator n t = (.ok ⟨⟩, t.boPut .creator n) :=
  drmGemObjectPut_live fun _ => h

theorem rocketIoctlCreateBo_eq (env : CreateEnv) (f : ℕ) (size : BitVec 32) (s : State) :
    rocketIoctlCreateBo env f size s =
      ((env.ending size).outcome fun k => ⟨k, env.vmaOffset,
          ((s.boMapped env f size k).bos s.nextBo).start⟩,
        s.afterCreate env f size (env.ending size)) := by
  have hmade : ((s.boMade f size).bos s.nextBo).domain =
      some ((s.boMade f size).bos s.nextBo).file := by
    simp
  cases hs : env.shmem with
  | some e => simp [rocketIoctlCreateBo, bind_apply, hs, CreateEnv.ending, CreateEnding.outcome,
      State.afterCreate]
  | none =>
  simp only [rocketIoctlCreateBo, bind_apply, hs, orFail_none, read_apply, modify_apply,
    ← State.boMade.eq_1]
  cases hh : env.handle with
  | error e =>
    simp only [onError, bind_apply, attempt, drmGemHandleCreate, ofExcept_error, put_creator hmade,
      CreateEnv.ending, CreateEnding.outcome, State.afterCreate, hs, hh, modify_apply, fail_apply]
  | ok k =>
    have hhandled := put_creator (t := ((s.boMade f size).setFile f fun file =>
      { file with handles := (k, s.nextBo) :: file.handles }).setBo s.nextBo fun bo =>
        { bo with kref := bo.kref.get (.handle k) }) (n := s.nextBo) (by simp)
    cases hg : env.sgt with
    | some e =>
      simp [onError, bind_apply, attempt, drmGemHandleCreate, hhandled,
        CreateEnv.ending, CreateEnding.outcome, State.afterCreate, hs, hh, hg, State.boHandled]
    | none =>
    cases hm : env.map with
    | some e =>
      simp [onError, bind_apply, attempt, drmGemHandleCreate, hhandled, mapBo_eq,
        CreateEnv.ending, CreateEnding.outcome, State.afterCreate, hs, hh, hg, hm, State.boHandled,
        State.boInserted]
    | none =>
      by_cases hl : pageAlign size.toNat ≤ intMax <;>
        simp [onError, bind_apply, attempt, drmGemHandleCreate, hhandled, mapBo_eq, hl,
          CreateEnv.ending, CreateEnding.outcome, State.afterCreate, hs, hh, hg, hm,
          State.boHandled, State.boInserted, State.boMapped]

/-- What the call leaves as it found it when it fails: the handle table, the nodes and the
mappings of the file; the new object is gone, and no node was removed that was not there. -/
structure FailureAtomic (f : ℕ) (s t : State) : Prop where
  handles : (t.files f).handles = (s.files f).handles
  nodes : (t.files f).nodes = (s.files f).nodes
  mapped : (t.domains f).mapped = (s.domains f).mapped
  freed : ∀ b, s.nextBo ≤ b → b < t.nextBo → (t.bos b).frees = 1
  removed : ∀ b, .removedUninserted b ∈ t.faults → .removedUninserted b ∈ s.faults

theorem FailureAtomic.refl (f : ℕ) (s : State) : FailureAtomic f s s where
  handles := rfl
  nodes := rfl
  mapped := rfl
  freed := fun _ h h' => absurd h' (Nat.not_lt.mpr h)
  removed := fun _ h => h

namespace State

/-- The reference of the handle is the one that is left. -/
theorem boHandled_kref (f : ℕ) (size : BitVec 32) (k : ℕ) (s : State) :
    ((s.boHandled f size k).bos s.nextBo).kref = ⟨1, [.handle k]⟩ := by
  simp [boHandled, boPut_bo, Ref.init, Ref.get, Ref.put]

theorem boHandled_file (f : ℕ) (size : BitVec 32) (k : ℕ) (s : State) :
    ((s.boHandled f size k).bos s.nextBo).file = f := by
  simp [boHandled]

theorem boHandled_nodes (f : ℕ) (size : BitVec 32) (k : ℕ) (s : State) :
    ((s.boHandled f size k).files f).nodes = (s.files f).nodes := by
  simp [boHandled, boPut_files, Ref.init, Ref.get]

theorem boHandled_handles : ((s.boHandled f size k).files f).handles =
    (k, s.nextBo) :: (s.files f).handles := by
  simp [boHandled]

/-- Nothing on the way out takes the handle back. -/
theorem afterCreate_handles {c : CreateEnding} (hc : c.entered = some k) :
    ((s.afterCreate env f size c).files f).handles = (k, s.nextBo) :: (s.files f).handles := by
  cases c with
  | shmem e => cases hc
  | handle e => cases hc
  | sgt k' e =>
    obtain rfl := Option.some.inj hc
    simp [afterCreate, boHandled_handles]
  | unmapped k' =>
    obtain rfl := Option.some.inj hc
    simp [afterCreate, boInserted, boHandled_handles]
  | truncated k' =>
    obtain rfl := Option.some.inj hc
    simp [afterCreate, boMapped, boInserted, boHandled_handles]
  | done k' =>
    obtain rfl := Option.some.inj hc
    simp [afterCreate, boMapped, boInserted, boHandled_handles]

/-- Without a handle the object is freed twice: by its last reference, and after it. -/
theorem afterCreate_frees (f : ℕ) (size : BitVec 32) (s : State) (e : Errno) :
    ((s.afterCreate env f size (.handle e)).bos s.nextBo).frees = 2 := by
  simp [afterCreate, boPut_bo, Ref.init]

theorem afterCreate_nextBo (c : CreateEnding) (hc : ∀ e, c ≠ .shmem e) :
    (s.afterCreate env f size c).nextBo = s.nextBo + 1 := by
  have hhandled : ∀ k, (s.boHandled f size k).nextBo = s.nextBo + 1 := by
    intro k
    simp [boHandled]
  have hinserted : ∀ k, (s.boInserted env f size k).nextBo = s.nextBo + 1 := by
    intro k
    unfold boInserted drmMmInsertNode
    split <;> simp [hhandled]
  cases c with
  | shmem e => exact absurd rfl (hc e)
  | handle e => simp [afterCreate]
  | sgt k e => simp [afterCreate, hhandled]
  | unmapped k => simp [afterCreate, hinserted]
  | truncated k => simp [afterCreate, boMapped, hinserted]
  | done k => simp [afterCreate, boMapped, hinserted]

end State

theorem not_failureAtomic_of_entered (env : CreateEnv) (f : ℕ) (size : BitVec 32) (s : State)
    {c : CreateEnding} (hc : c.entered = some k) :
    ¬ FailureAtomic f s (s.afterCreate env f size c) := by
  intro h
  -- the table has one entry more than before
  have hlen := congrArg List.length ((State.afterCreate_handles hc).symm.trans h.handles)
  simp at hlen

theorem not_failureAtomic_of_handle (env : CreateEnv) (f : ℕ) (size : BitVec 32) (s : State)
    (e : Errno) : ¬ FailureAtomic f s (s.afterCreate env f size (.handle e)) := by
  intro h
  have hnew : s.nextBo < (s.afterCreate env f size (.handle e)).nextBo := by
    rw [State.afterCreate_nextBo _ (by simp)]
    exact Nat.lt_succ_self _
  have hf := h.freed s.nextBo (Nat.le_refl _) hnew
  rw [State.afterCreate_frees] at hf
  cases hf

/-- The calls that keep the promise: those that fail before there is an object, and those
that do not fail. -/
theorem createBo_atomic_iff (env : CreateEnv) (f : ℕ) (size : BitVec 32) (s : State) :
    (∀ e, (rocketIoctlCreateBo env f size s).1 = .error e →
      FailureAtomic f s (rocketIoctlCreateBo env f size s).2) ↔
    env.shmem.isSome ∨ (∃ k, env.handle = .ok k) ∧ env.sgt = none ∧ env.map = none ∧
      pageAlign size.toNat ≤ intMax := by
  rw [rocketIoctlCreateBo_eq, ← env.ending_clean_iff size]
  have hentered := fun c k => not_failureAtomic_of_entered env f size s (c := c) (k := k)
  cases env.ending size with
  | shmem e =>
    exact ⟨fun _ => .inl ⟨e, rfl⟩, fun _ _ _ => .refl f s⟩
  | done k =>
    exact ⟨fun _ => .inr ⟨k, rfl⟩, fun _ _ h => by cases h⟩
  | handle e =>
    exact ⟨fun h => absurd (h e rfl) (not_failureAtomic_of_handle env f size s e), by simp⟩
  | sgt k e =>
    exact ⟨fun h => absurd (h e rfl) (hentered (.sgt k e) k rfl), by simp⟩
  | unmapped k =>
    exact ⟨fun h => absurd (h .enomem rfl) (hentered (.unmapped k) k rfl), by simp⟩
  | truncated k =>
    exact ⟨fun h => absurd (h .enomem rfl) (hentered (.truncated k) k rfl), by simp⟩

/-- An open file, and an object whose pages cannot be had: its handle stays in the table. -/
theorem not_createBo_atomic :
    ∃ s, Reaches ⟨16, 40⟩ s ∧ (s.files 0).priv ∧
      ¬ ∀ env f size e, (rocketIoctlCreateBo env f size s).1 = .error e →
        FailureAtomic f s (rocketIoctlCreateBo env f size s).2 := by
  refine ⟨.opened, .opened _, rfl, fun h => ?_⟩
  have ha := h ⟨none, .ok 1, some .enomem, .ok 0, none, 0⟩ 0 4096 .enomem rfl
  have hlen : 1 = 0 := congrArg List.length ha.handles
  cases hlen

end RocketNpu.Drm
