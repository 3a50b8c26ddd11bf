import RocketNpu.Drm.Steps

namespace RocketNpu.Drm
open Refcount Calls Call

variable {s : State} {f : ℕ}

/-- How a call ends that hands up the error code it may have. -/
def ending (ret : Option Errno) : Outcome Errno Oops PUnit :=
  ret.elim (.ok ⟨⟩) .error

@[simp] theorem ending_none : ending none = .ok ⟨⟩ := rfl

@[simp] theorem ending_some (e : Errno) : ending (some e) = .error e := rfl

/-- A new job with the record `job`, which holds a reference on each BO of `bs`. -/
@[simps -fullyApplied files domains bos jobs nextFile nextBo nextJob faults]
def State.withJob (job : Job) (bs : List ℕ) (s : State) : State :=
  { s with
    jobs := Function.update s.jobs s.nextJob job
    bos := fun b => { s.bos b with kref := (s.bos b).kref.getMany (.job s.nextJob) (bs.count b) }
    nextJob := s.nextJob + 1 }

namespace State

theorem newJob_eq (desc : JobDesc) (s : State) :
    s.newJob desc = s.withJob { desc := desc } [] := by
  simp [newJob, withJob, Ref.getMany]

@[simp] theorem withJob_setJob (job : Job) (bs : List ℕ) (g : Job → Job) (s : State) :
    (s.withJob job bs).setJob s.nextJob g = s.withJob (g job) bs := by
  simp [withJob, setJob]

@[simp] theorem withJob_takeRefs (job : Job) (bs bs' : List ℕ) (s : State) :
    (s.withJob job bs).takeRefs s.nextJob bs' =
      s.withJob { job with taken := job.taken ++ bs' } (bs ++ bs') := by
  apply State.ext <;> try rfl
  · funext b
    simp [takeRefs, withJob, Ref.getMany, ← List.append_assoc, Nat.add_comm, Nat.add_left_comm,
      Nat.add_assoc]
  · simp [takeRefs, withJob, setJob]

end State

/-- `rocket_copy_tasks` on the record of the job, with what it returns. -/
def copiedTasks (abi : Abi) (env : SubmitEnv) (desc : JobDesc) (job : Job) :
    Job × Option Errno :=
  if desc.taskStructSize.toNat < abi.taskSize then (job, some .einval)
  else if desc.taskCount = 0 then ({ job with taskCount := desc.taskCount }, none)
  else if !tasksFit env desc then ({ job with taskCount := desc.taskCount }, some .enomem)
  else
    match copyTasks env desc with
    | .ok tasks =>
      ({ job with
        taskCount := desc.taskCount, tasks := some tasks, tasksAllocs := job.tasksAllocs + 1 },
        none)
    | .error e =>
      ({ job with
        taskCount := desc.taskCount, tasks := some [], tasksAllocs := job.tasksAllocs + 1,
        tasksFrees := job.tasksFrees + 1 }, some e)

theorem rocketCopyTasks_eq (abi : Abi) (env : SubmitEnv) (desc : JobDesc) (job : Job)
    (bs : List ℕ) (s : State) :
    rocketCopyTasks abi env desc s.nextJob (s.withJob job bs) =
      (ending (copiedTasks abi env desc job).2,
        s.withJob (copiedTasks abi env desc job).1 bs) := by
  unfold rocketCopyTasks copiedTasks
  split_ifs <;> simp_all [bind_apply]
  split <;> simp_all [bind_apply]

/-- The record with an array of BOs published, whose references the job holds. -/
def Job.lookedUp (objs : Option (List ℕ)) (job : Job) : Job :=
  { job with taken := job.taken ++ objs.getD [] }

theorem drmGemObjectsLookup_eq (env : LookupEnv) (f : ℕ) (base : BitVec 64) (count : BitVec 32)
    (publish : Option (List ℕ) → Job → Job) (job : Job) (bs : List ℕ) (s : State) :
    drmGemObjectsLookup env f s.nextJob base count publish (s.withJob job bs) =
      let found := objectsLookup env (s.files f).handles base count
      (ending found.2,
        s.withJob (publish found.1 (job.lookedUp found.1)) (bs ++ found.1.getD [])) := by
  cases hr : (objectsLookup env (s.files f).handles base count).2 <;>
    simp [drmGemObjectsLookup, bind_apply, hr, Job.lookedUp]

/-- `prepareJob` on the record of the job, with what it returns. -/
def prepared (abi : Abi) (env : SubmitEnv) (table : List (ℕ × ℕ)) (desc : JobDesc)
    (job : Job) : Job × Option Errno :=
  match copiedTasks abi env desc job with
  | (job, some e) => (job, some e)
  | (job, none) =>
    match objectsLookup env.inBos table desc.inBoHandles desc.inBoHandleCount with
    | (objs, some e) => ({ job.lookedUp objs with inBos := objs }, some e)
    | (objs, none) =>
      let job := { job.lookedUp objs with inBos := objs, inBoCount := desc.inBoHandleCount.toNat }
      match objectsLookup env.outBos table desc.outBoHandles desc.outBoHandleCount with
      | (objs, some e) => ({ job.lookedUp objs with outBos := objs }, some e)
      | (objs, none) =>
        ({ job.lookedUp objs with outBos := objs, outBoCount := desc.outBoHandleCount.toNat },
          none)

theorem copiedTasks_taken (abi : Abi) (env : SubmitEnv) (desc : JobDesc) (job : Job) :
    (copiedTasks abi env desc job).1.taken = job.taken := by
  unfold copiedTasks
  split_ifs
  · rfl
  · rfl
  · rfl
  · split <;> rfl

theorem prepareJob_eq (abi : Abi) (env : SubmitEnv) (f : ℕ) (desc : JobDesc) (job : Job)
    (s : State) :
    prepareJob abi env f desc s.nextJob (s.withJob job job.taken) =
      (ending (prepared abi env (s.files f).handles desc job).2,
        s.withJob (prepared abi env (s.files f).handles desc job).1
          (prepared abi env (s.files f).handles desc job).1.taken) := by
  have htaken := copiedTasks_taken abi env desc job
  unfold prepareJob prepared
  rw [bind_apply, rocketCopyTasks_eq, ← htaken]
  rcases copiedTasks abi env desc job with ⟨job, _ | e⟩
  case some => rfl
  simp only [ending_none, bind_apply, drmGemObjectsLookup_eq]
  rcases objectsLookup env.inBos _ _ _ with ⟨objs, _ | e⟩
  case some => rfl
  simp only [ending_none, modify_apply, State.withJob_setJob, drmGemObjectsLookup_eq]
  rcases objectsLookup env.outBos _ _ _ with ⟨objs, _ | e⟩
  case some => rfl
  simp only [ending_none, State.withJob_setJob]
  rfl

/-- The fields that the preparation of a job leaves alone. -/
structure Job.Kept (old new : Job) : Prop where
  desc : new.desc = old.desc
  domain : new.domain = old.domain
  refcount : new.refcount = old.refcount
  stage : new.stage = old.stage
  schedInits : new.schedInits = old.schedInits
  schedCleanups : new.schedCleanups = old.schedCleanups
  dropped : new.dropped = old.dropped
  frees : new.frees = old.frees

theorem copiedTasks_kept (abi : Abi) (env : SubmitEnv) (desc : JobDesc) (job : Job) :
    job.Kept (copiedTasks abi env desc job).1 := by
  unfold copiedTasks
  split_ifs
  · exact ⟨rfl, rfl, rfl, rfl, rfl, rfl, rfl, rfl⟩
  · exact ⟨rfl, rfl, rfl, rfl, rfl, rfl, rfl, rfl⟩
  · exact ⟨rfl, rfl, rfl, rfl, rfl, rfl, rfl, rfl⟩
  · split <;> exact ⟨rfl, rfl, rfl, rfl, rfl, rfl, rfl, rfl⟩

variable {abi : Abi} {env : SubmitEnv} {table : List (ℕ × ℕ)} {desc : JobDesc} {job : Job} {b : ℕ}

theorem prepared_kept : job.Kept (prepared abi env table desc job).1 := by
  have h := copiedTasks_kept abi env desc job
  unfold prepared
  generalize copiedTasks abi env desc job = copied at h
  obtain ⟨job', _ | e⟩ := copied
  case some => exact h
  rcases objectsLookup env.inBos _ _ _ with ⟨ins, _ | e⟩
  case some => exact { h with }
  rcases objectsLookup env.outBos _ _ _ with ⟨outs, _ | e⟩ <;> exact { h with }

theorem lookupHandles_mem {hs : List (BitVec 32)} (h : b ∈ (lookupHandles table hs).1) :
    ∃ k, (k, b) ∈ table := by
  induction hs with
  | nil => exact absurd h List.not_mem_nil
  | cons k hs ih =>
    unfold lookupHandles at h
    split at h
    · exact absurd h List.not_mem_nil
    · next b' hb =>
      rcases List.mem_cons.mp h with rfl | h
      · obtain ⟨l₁, l₂, rfl, -⟩ := List.lookup_eq_some_iff.mp hb
        exact ⟨k.toNat, by simp⟩
      · exact ih h

theorem lookupHandles_length {hs : List (BitVec 32)} (h : (lookupHandles table hs).2 = none) :
    (lookupHandles table hs).1.length = hs.length := by
  induction hs with
  | nil => rfl
  | cons k hs ih =>
    unfold lookupHandles at h ⊢
    split at h
    · cases h
    · next b hb => simp [ih h]

theorem objectsLookup_mem {env : LookupEnv} {base : BitVec 64} {count : BitVec 32} {b : ℕ}
    (h : b ∈ (objectsLookup env table base count).1.getD []) : ∃ k, (k, b) ∈ table := by
  unfold objectsLookup at h
  split_ifs at h
  · exact absurd h List.not_mem_nil
  · exact absurd h List.not_mem_nil
  · exact absurd h List.not_mem_nil
  · split at h
    · exact absurd h List.not_mem_nil
    · exact lookupHandles_mem h

theorem map_of_mapM_eq_some {α β : Type} {g : α → Option β} {as : List α} {bs : List β}
    (h : as.mapM g = some bs) : as.map g = bs.map some := by
  induction as generalizing bs with
  | nil =>
    obtain rfl : [] = bs := by simpa using h
    rfl
  | cons a as ih =>
    rw [List.mapM_cons] at h
    obtain ⟨b, hb, h⟩ := Option.bind_eq_some_iff.mp h
    obtain ⟨bs', hbs, h⟩ := Option.bind_eq_some_iff.mp h
    obtain rfl : b :: bs' = bs := by simpa using h
    rw [List.map_cons, List.map_cons, hb, ih hbs]

theorem length_of_mapM_eq_some {α β : Type} {g : α → Option β} {as : List α} {bs : List β}
    (h : as.mapM g = some bs) : bs.length = as.length := by
  simpa using congrArg List.length (map_of_mapM_eq_some h).symm

theorem objectsLookup_length {env : LookupEnv} {base : BitVec 64} {count : BitVec 32}
    (h : (objectsLookup env table base count).2 = none) :
    ((objectsLookup env table base count).1.getD []).length = count.toNat := by
  unfold objectsLookup at h ⊢
  split_ifs at h ⊢ with h0
  · simp [h0]
  · split at h
    · cases h
    · next hs hm =>
      have hlen := lookupHandles_length h
      rw [length_of_mapM_eq_some hm, List.length_range] at hlen
      exact hlen

theorem prepared_mem (h : b ∈ (prepared abi env table desc job).1.taken) :
    b ∈ job.taken ∨ ∃ k, (k, b) ∈ table := by
  have htaken := copiedTasks_taken abi env desc job
  unfold prepared at h
  generalize copiedTasks abi env desc job = copied at h htaken
  obtain ⟨job', _ | e⟩ := copied
  case some => exact .inl (htaken ▸ h)
  have htaken : job'.taken = job.taken := htaken
  -- whatever a lookup adds to the list comes from the table
  have hin : ∀ b ∈ (objectsLookup env.inBos table desc.inBoHandles
      desc.inBoHandleCount).1.getD [], ∃ k, (k, b) ∈ table := fun _ => objectsLookup_mem
  have hout : ∀ b ∈ (objectsLookup env.outBos table desc.outBoHandles
      desc.outBoHandleCount).1.getD [], ∃ k, (k, b) ∈ table := fun _ => objectsLookup_mem
  generalize objectsLookup env.inBos _ _ _ = ins at h hin
  generalize objectsLookup env.outBos _ _ _ = outs at h hout
  obtain ⟨ins, _ | e⟩ := ins
  case some => exact htaken ▸ (List.mem_append.mp h).imp_right (hin b)
  have hsplit : b ∈ (job'.taken ++ ins.getD []) ++ outs.1.getD [] := by
    obtain ⟨outs, _ | e⟩ := outs <;> exact h
  rcases List.mem_append.mp hsplit with h | h
  · exact htaken ▸ (List.mem_append.mp h).imp_right (hin b)
  · exact .inr (hout b h)

/-- A preparation that succeeds leaves a record the cleanup can work with. -/
structure Job.Prepared (desc : JobDesc) (job : Job) : Prop where
  taken : job.taken = job.ins ++ job.outs
  tasksAllocs : job.tasksAllocs = if job.tasks.isSome then 1 else 0
  tasksFrees : job.tasksFrees = 0
  inBoCount : job.inBoCount = desc.inBoHandleCount.toNat
  outBoCount : job.outBoCount = desc.outBoHandleCount.toNat

theorem copiedTasks_none (h : (copiedTasks abi env desc job).2 = none) :
    (copiedTasks abi env desc job).1 = { job with taskCount := desc.taskCount } ∨
      ∃ tasks, (copiedTasks abi env desc job).1 = { job with
        taskCount := desc.taskCount, tasks := some tasks, tasksAllocs := job.tasksAllocs + 1 } := by
  unfold copiedTasks at h ⊢
  split_ifs at h ⊢
  · exact .inl rfl
  · split at h
    · next tasks _ => exact .inr ⟨tasks, rfl⟩
    · cases h

theorem prepared_none
    (h : (prepared abi env table desc { desc := desc, schedInits := 1 }).2 = none) :
    (prepared abi env table desc { desc := desc, schedInits := 1 }).1.Prepared desc := by
  have htaken := copiedTasks_taken abi env desc { desc := desc, schedInits := 1 }
  have htasks := @copiedTasks_none abi env desc { desc := desc, schedInits := 1 }
  have hin := @objectsLookup_length table env.inBos desc.inBoHandles desc.inBoHandleCount
  have hout := @objectsLookup_length table env.outBos desc.outBoHandles desc.outBoHandleCount
  unfold prepared at h ⊢
  generalize copiedTasks abi env desc _ = copied at h htaken htasks ⊢
  obtain ⟨job', _ | e⟩ := copied
  case some => cases h
  generalize objectsLookup env.inBos _ _ _ = ins at h hin ⊢
  obtain ⟨ins, _ | e⟩ := ins
  case some => cases h
  generalize objectsLookup env.outBos _ _ _ = outs at h hout ⊢
  obtain ⟨outs, _ | e⟩ := outs
  case some => cases h
  have htaken' : job'.taken = [] := htaken
  have hallocs : job'.tasksAllocs = (if job'.tasks.isSome then 1 else 0) ∧ job'.tasksFrees = 0 := by
    rcases htasks rfl with hj | ⟨tasks, hj⟩
    · obtain rfl : job' = _ := hj
      exact ⟨rfl, rfl⟩
    · obtain rfl : job' = _ := hj
      exact ⟨rfl, rfl⟩
  refine ⟨?_, hallocs.1, hallocs.2, rfl, rfl⟩
  change (job'.taken ++ ins.getD []) ++ outs.getD [] =
    (ins.getD []).take desc.inBoHandleCount.toNat ++ (outs.getD []).take desc.outBoHandleCount.toNat
  rw [htaken', ← hin rfl, ← hout rfl, List.take_length, List.take_length, List.nil_append]

/-- `rocket_copy_tasks` has nothing to complain of. -/
def Copies (abi : Abi) (env : SubmitEnv) (desc : JobDesc) : Prop :=
  abi.taskSize ≤ desc.taskStructSize.toNat ∧ tasksFit env desc ∧
    ∃ tasks, copyTasks env desc = .ok tasks

/-- Every handle of the array is copied and known. -/
def Finds (env : LookupEnv) (table : List (ℕ × ℕ)) (base : BitVec 64) (count : BitVec 32) : Prop :=
  (objectsLookup env table base count).2 = none

theorem copiedTasks_none_iff (hcount : desc.taskCount ≠ 0) :
    (copiedTasks abi env desc job).2 = none ↔ Copies abi env desc := by
  unfold copiedTasks Copies
  split_ifs with h1 h2
  · simp [Nat.not_le.mpr h1]
  · simp_all
  · split <;> simp_all

theorem prepared_none_iff (hcount : desc.taskCount ≠ 0) :
    (prepared abi env table desc job).2 = none ↔ Copies abi env desc ∧
      Finds env.inBos table desc.inBoHandles desc.inBoHandleCount ∧
      Finds env.outBos table desc.outBoHandles desc.outBoHandleCount := by
  rw [← @copiedTasks_none_iff abi env desc job hcount]
  unfold prepared Finds
  rcases copiedTasks abi env desc job with ⟨job', _ | e⟩
  case some => simp
  rcases objectsLookup env.inBos _ _ _ with ⟨ins, _ | e⟩
  case some => simp
  rcases objectsLookup env.outBos _ _ _ with ⟨outs, _ | e⟩ <;> simp

end RocketNpu.Drm
