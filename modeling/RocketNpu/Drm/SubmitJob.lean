import RocketNpu.Drm.Reach

namespace RocketNpu.Drm
open Runs Refcount Calls Call

variable {abi : Abi} {env : SubmitEnv} {s t : State} {f j : ℕ} {desc : JobDesc}

/-- What a submission acquired for the job is released, once. -/
structure Released (job : Job) : Prop where
  tasks : job.tasksFrees = job.tasksAllocs
  tasksOnce : job.tasksAllocs ≤ 1
  refs : job.dropped.Perm job.taken
  sched : job.schedCleanups = job.schedInits
  schedOnce : job.schedInits ≤ 1
  freed : job.frees = 1

/-- A call that fails has released what it acquired when it is over; a job that was pushed is
released when the scheduler has called `free_job`, and stays so. -/
def ReleasesOnce (abi : Abi) (env : SubmitEnv) (f : ℕ) (desc : JobDesc) (s : State) : Prop :=
  match rocketIoctlSubmitJob abi env f desc s with
  | (.ok _, t) => (t.jobs s.nextJob).stage = .queued ∧
      ∀ u, Reachable (· = t) (Step abi) u → (u.jobs s.nextJob).stage = .freed →
        Released (u.jobs s.nextJob)
  | (_, t) => ∀ j, s.nextJob ≤ j → j < t.nextJob → Released (t.jobs j)

/-- The cleanup releases what a ready job holds, once the scheduler part is cleaned up. -/
theorem Released.jobCleaned (hr : (s.jobs j).taken = (s.jobs j).ins ++ (s.jobs j).outs)
    (hd : (s.jobs j).dropped = []) (hi : (s.jobs j).schedInits = 1)
    (hc : (s.jobs j).schedCleanups = 1)
    (ha : (s.jobs j).tasksAllocs = if (s.jobs j).tasks.isSome then 1 else 0)
    (ht : (s.jobs j).tasksFrees = 0) (hf : (s.jobs j).frees = 0) (f : ℕ) :
    Released ((s.jobCleaned f j).jobs j) := by
  rw [State.jobCleaned_jobs, Function.update_self]
  refine ⟨by simp [ha, ht], ?_, by simp [hr, hd], by simp [hi, hc], by simp [hi], by simp [hf]⟩
  simp only [ha]
  split <;> simp

theorem Released.jobFreed (h : (s.jobs j).Ready) (f : ℕ) :
    Released ((s.jobFreed f j).jobs j) := by
  apply Released.jobCleaned <;> simp only [State.setJob_jobs, Function.update_self]
  · exact h.taken
  · exact h.dropped
  · exact h.schedInits
  · simp [h.schedCleanups]
  · exact h.tasksAllocs
  · exact h.tasksFrees
  · exact h.frees

/-- The job that could not be pushed. -/
theorem Released.notPushed {job : Job} (hkept : (startJob desc).Kept job)
    (hprep : job.Prepared desc) (e : Errno) :
    Released ((s.afterSubmit f (.notPushed job e)).jobs s.nextJob) := by
  have hcleanups : job.schedCleanups = 0 := hkept.schedCleanups
  apply Released.jobCleaned <;>
    simp only [State.setJob_jobs, Function.update_self, State.acquired_job]
  · exact hprep.taken
  · exact hkept.dropped
  · exact hkept.schedInits
  · simp [hcleanups]
  · exact hprep.tasksAllocs
  · exact hprep.tasksFrees
  · exact hkept.frees

/-- A submission makes at most one job, and touches no other. -/
theorem State.afterSubmit_jobs_ne (f : ℕ) (s : State) (c : SubmitEnding) (hj : j ≠ s.nextJob) :
    (s.afterSubmit f c).jobs j = s.jobs j := by
  cases c <;> simp [afterSubmit, jobCleaned_jobs, hj]

theorem State.afterSubmit_nextJob (f : ℕ) (s : State) (c : SubmitEnding) :
    s.nextJob ≤ (s.afterSubmit f c).nextJob ∧ (s.afterSubmit f c).nextJob ≤ s.nextJob + 1 := by
  cases c <;> simp [afterSubmit, jobCleaned]

/-- The scheduler has the job, or it is released. -/
def Settled (job : Job) : Prop := job.stage.Pending ∨ job.stage = .freed ∧ Released job

theorem State.afterCreate_jobs (env : CreateEnv) (f : ℕ) (size : BitVec 32) (s : State)
    (c : CreateEnding) : (s.afterCreate env f size c).jobs = s.jobs ∧
      (s.afterCreate env f size c).nextJob = s.nextJob := by
  have hhandled : ∀ k, (s.boHandled f size k).jobs = s.jobs ∧
      (s.boHandled f size k).nextJob = s.nextJob := by
    intro k
    simp [boHandled]
  have hinserted : ∀ k, (s.boInserted env f size k).jobs = s.jobs ∧
      (s.boInserted env f size k).nextJob = s.nextJob := by
    intro k
    unfold boInserted drmMmInsertNode
    split <;> simpa using hhandled k
  cases c with
  | shmem e => exact ⟨rfl, rfl⟩
  | handle e => simp [afterCreate]
  | sgt k e => simpa [afterCreate] using hhandled k
  | unmapped k => simpa [afterCreate] using hinserted k
  | truncated k => simpa [afterCreate, boMapped] using hinserted k
  | done k => simpa [afterCreate, boMapped] using hinserted k

/-- A job that exists is touched by the scheduler alone. -/
theorem Op.run_job (h : Wf s) {op : Op} (ha : op.Admissible s) (hj : j < s.nextJob) :
    j < (op.run abi s).nextJob ∧ ((op.run abi s).jobs j = s.jobs j ∨
      (∃ f, op = .takeJob f j) ∨ op = .freeJob j) := by
  cases op with
  | «open» env =>
    rcases rocketOpen_cases env s with he | he | he <;> rw [Op.run, he] <;> exact ⟨hj, .inl rfl⟩
  | createBo env f size =>
    rw [Op.run, rocketIoctlCreateBo_eq]
    obtain ⟨hjobs, hnext⟩ := State.afterCreate_jobs env f size s (env.ending size)
    exact ⟨hnext ▸ hj, .inl (congrFun hjobs j)⟩
  | submitJob env f desc =>
    rw [Op.run, rocketIoctlSubmitJob_eq h]
    exact ⟨Nat.lt_of_lt_of_le hj (State.afterSubmit_nextJob f s _).1,
      .inl (State.afterSubmit_jobs_ne f s _ (Nat.ne_of_lt hj))⟩
  | dropHandle f k =>
    rcases h.dropHandle_cases f k with he | ⟨b, -, he⟩ <;> rw [Op.run, he]
    · exact ⟨hj, .inl rfl⟩
    · simpa using hj
  | takeJob f j' =>
    refine ⟨hj, ?_⟩
    by_cases he : j = j'
    · exact .inr (.inl ⟨f, he ▸ rfl⟩)
    · exact .inl (by simp [Op.run, Drm.takeJob, he])
  | freeJob j' =>
    have htaken : (s.jobs j').stage = .taken := ha
    obtain ⟨f, hf⟩ := (h.ready j' (by simp [htaken, Stage.Pending])).domain
    rw [Op.run, (h.freeJob ha hf).1]
    refine ⟨by simpa [State.jobFreed, State.jobCleaned] using hj, ?_⟩
    by_cases he : j = j'
    · exact .inr (.inr (he ▸ rfl))
    · exact .inl (by simp [State.jobFreed, State.jobCleaned_jobs, he])
  | postclose f => exact ⟨hj, .inl rfl⟩

theorem Settled.step (h : Wf s) (hs : Settled (s.jobs j)) {op : Op} (ha : op.Admissible s)
    (hj : j < s.nextJob) : Settled ((op.run abi s).jobs j) := by
  rcases (@Op.run_job abi s j h _ ha hj).2 with he | ⟨f, rfl⟩ | rfl
  · rwa [he]
  · left
    simp [Op.run, takeJob, Stage.Pending]
  · right
    have htaken : (s.jobs j).stage = .taken := ha
    have hready := h.ready j (by simp [htaken, Stage.Pending])
    obtain ⟨f, hf⟩ := hready.domain
    rw [Op.run, (h.freeJob ha hf).1]
    exact ⟨by simp [State.jobFreed, State.jobCleaned_jobs], .jobFreed hready f⟩

/-- From a push on, in every run. -/
theorem Settled.run (h : Wf s) (hs : Settled (s.jobs j)) (hj : j < s.nextJob)
    (ht : Reachable (· = s) (Step abi) t) : Settled (t.jobs j) := by
  suffices hi : Wf t ∧ Settled (t.jobs j) ∧ j < t.nextJob from hi.2.1
  apply ht.invariant (I := fun t => Wf t ∧ Settled (t.jobs j) ∧ j < t.nextJob)
  · rintro t rfl
    exact ⟨h, hs, hj⟩
  · rintro t op u ⟨hw, hs, hj⟩ ⟨ha, rfl⟩
    exact ⟨hw.step ha, hs.step hw ha hj, (Op.run_job hw ha hj).1⟩

/-- What a submission needs to come back once it has a job: it gets to the push, and the copy
of the BOs has memory. -/
def Completes (abi : Abi) (env : SubmitEnv) (table : List (ℕ × ℕ)) (desc : JobDesc) : Prop :=
  env.schedInit = none ∧ Copies abi env desc ∧
    Finds env.inBos table desc.inBoHandles desc.inBoHandleCount ∧
    Finds env.outBos table desc.outBoHandles desc.outBoHandleCount ∧
    (env.bosAlloc ∨ desc.inBoHandleCount.toNat + desc.outBoHandleCount.toNat = 0)

/-- The call comes back. -/
def SubmitEnding.Returns : SubmitEnding → Prop
  | .unprepared _ | .noArray _ => False
  | .noTasks | .noJob | .notPushed _ _ | .pushed _ => True

theorem SubmitEnv.ending_of_completes {table : List (ℕ × ℕ)} (hc : desc.taskCount ≠ 0)
    (hz : env.kzalloc = true) (h : Completes abi env table desc) :
    ∃ job, env.ending abi table desc =
      match pushError env desc.inBoHandleCount.toNat desc.outBoHandleCount.toNat with
      | some e => .notPushed job e
      | none => .pushed job := by
  obtain ⟨hs, hcopies, hins, houts, hb⟩ := h
  have hprep := @prepared_none abi env table desc
  have hret := (@prepared_none_iff abi env table desc (startJob desc) hc).mpr ⟨hcopies, hins, houts⟩
  rw [ending, if_neg hc, if_neg (by simp [hz]), hs]
  unfold startJob at hret ⊢
  generalize prepared abi env table desc _ = prep at hprep hret ⊢
  obtain ⟨job, ret⟩ := prep
  obtain rfl : ret = none := hret
  have hjob : job.Prepared desc := hprep rfl
  have harray : ¬ ((!env.bosAlloc) = true ∧ job.inBoCount + job.outBoCount ≠ 0) := by
    rintro ⟨hno, hne⟩
    rw [hjob.inBoCount, hjob.outBoCount] at hne
    rcases hb with hb | hb
    · simp [hb] at hno
    · exact hne hb
  refine ⟨job, ?_⟩
  rw [← hjob.inBoCount, ← hjob.outBoCount]
  dsimp only
  cases pushError env job.inBoCount job.outBoCount <;> exact if_neg harray

theorem SubmitEnv.completes_of_returns {table : List (ℕ × ℕ)} (hc : desc.taskCount ≠ 0)
    (hz : env.kzalloc = true) (h : (env.ending abi table desc).Returns) :
    Completes abi env table desc := by
  have hprep := @prepared_none abi env table desc
  have hret := @prepared_none_iff abi env table desc (startJob desc) hc
  rw [ending, if_neg hc, if_neg (by simp [hz])] at h
  cases hs : env.schedInit with
  | some e =>
    rw [hs] at h
    exact absurd h id
  | none =>
  rw [hs] at h
  unfold startJob at h hret
  generalize prepared abi env table desc _ = prep at hprep hret h
  obtain ⟨job, _ | e⟩ := prep
  case some => exact absurd h id
  obtain ⟨hcopies, hins, houts⟩ := hret.mp rfl
  have hjob := hprep rfl
  refine ⟨hs, hcopies, hins, houts, ?_⟩
  dsimp only at h
  split_ifs at h with hb
  · exact absurd h id
  · rw [← hjob.inBoCount, ← hjob.outBoCount]
    by_contra hn
    rw [not_or] at hn
    exact hb ⟨by simpa using hn.1, hn.2⟩

theorem SubmitEnv.ending_returns_iff (abi : Abi) (env : SubmitEnv) (table : List (ℕ × ℕ))
    (desc : JobDesc) : (env.ending abi table desc).Returns ↔
      desc.taskCount = 0 ∨ env.kzalloc = false ∨ Completes abi env table desc := by
  by_cases hc : desc.taskCount = 0
  · simp [ending, hc, SubmitEnding.Returns]
  cases hz : env.kzalloc with
  | false =>
    rw [ending, if_neg hc, if_pos (by simp [hz])]
    simp [SubmitEnding.Returns]
  | true =>
    rw [or_iff_right hc, or_iff_right (by simp)]
    refine ⟨completes_of_returns hc hz, fun h => ?_⟩
    obtain ⟨job, he⟩ := ending_of_completes hc hz h
    rw [he]
    split <;> trivial

/-- A submission keeps the promise exactly when it comes back: what fails before the job has
its domain dies in the cleanup, and so does the copy of the BOs without memory. -/
theorem submitJob_releases_iff (h : Reaches abi s) (env : SubmitEnv) (f : ℕ) (desc : JobDesc) :
    ReleasesOnce abi env f desc s ↔
      desc.taskCount = 0 ∨ env.kzalloc = false ∨
        Completes abi env (s.files f).handles desc := by
  have hwf := (h.wf).afterSubmit (env.ending_fits abi (s.files f).handles desc)
  have hfits := env.ending_fits abi (s.files f).handles desc
  rw [← env.ending_returns_iff abi (s.files f).handles desc, ReleasesOnce,
    rocketIoctlSubmitJob_eq h.wf]
  generalize env.ending abi (s.files f).handles desc = c at hwf hfits ⊢
  cases c with
  | noTasks => exact ⟨fun _ => trivial, fun _ j hj hj' => absurd hj' (Nat.not_lt.mpr hj)⟩
  | noJob => exact ⟨fun _ => trivial, fun _ j hj hj' => absurd hj' (Nat.not_lt.mpr hj)⟩
  | unprepared job =>
    refine ⟨fun hr => ?_, False.elim⟩
    have hfreed := (hr s.nextJob (Nat.le_refl _) (Nat.lt_succ_self _)).freed
    simp [State.afterSubmit, hfits.2.1] at hfreed
  | noArray job =>
    refine ⟨fun hr => ?_, False.elim⟩
    have hfreed := (hr s.nextJob (Nat.le_refl _) (Nat.lt_succ_self _)).freed
    rw [State.afterSubmit, State.acquired_job] at hfreed
    simp [startJob, hfits.1.frees] at hfreed
  | notPushed job e =>
    refine ⟨fun _ => trivial, fun _ j hj hj' => ?_⟩
    have hnew := (State.afterSubmit_nextJob f s (.notPushed job e)).2
    obtain rfl : j = s.nextJob := by omega
    exact .notPushed hfits.1 hfits.2.1 e
  | pushed job =>
    have hjob : ((s.afterSubmit f (.pushed job)).jobs s.nextJob).stage = .queued := by
      simp [State.afterSubmit]
    refine ⟨fun _ => trivial, fun _ => ⟨hjob, fun u hu hfreed => ?_⟩⟩
    have hsettled : Settled ((s.afterSubmit f (.pushed job)).jobs s.nextJob) :=
      .inl (by simp [hjob, Stage.Pending])
    rcases hsettled.run hwf (Nat.lt_succ_self _) hu with hp | hr
    · simp [hfreed, Stage.Pending] at hp
    · exact hr.2

/-- The reference on the BO that the job names is dropped when the job is freed. -/
theorem submitJob_releases_oneTask :
    ReleasesOnce ⟨16, 40⟩ { SubmitEnv.smooth with inBos := ⟨true, true, fun _ => some 1⟩ } 0
        { JobDesc.oneTask with inBoHandleCount := 1 } (Op.makeBo.run ⟨16, 40⟩ .opened) ∧
      ∃ u, Reachable (· = .shared) (Step ⟨16, 40⟩) u ∧ (u.jobs 0).stage = .freed ∧
        (u.jobs 0).dropped = [0] := by
  have hmade : Reaches ⟨16, 40⟩ (Op.makeBo.run ⟨16, 40⟩ .opened) :=
    (Reaches.opened _).run .makeBo ⟨rfl, fun _ _ => rfl⟩
  have hreleases := (submitJob_releases_iff hmade
    { SubmitEnv.smooth with inBos := ⟨true, true, fun _ => some 1⟩ } 0
    { JobDesc.oneTask with inBoHandleCount := 1 }).mpr
      (.inr (.inr ⟨rfl, ⟨by decide, rfl, [⟨0, 1⟩], rfl⟩, rfl, rfl, .inl rfl⟩))
  have hrun : Reachable (· = .shared) (Step ⟨16, 40⟩)
      ((Op.freeJob 0).run ⟨16, 40⟩ ((Op.takeJob 0 0).run ⟨16, 40⟩ .shared)) :=
    .step (e := Op.freeJob 0) (.step (e := Op.takeJob 0 0) (.start rfl) ⟨rfl, rfl⟩) ⟨rfl, rfl⟩
  have hcall : rocketIoctlSubmitJob ⟨16, 40⟩
      { SubmitEnv.smooth with inBos := ⟨true, true, fun _ => some 1⟩ } 0
      { JobDesc.oneTask with inBoHandleCount := 1 } (Op.makeBo.run ⟨16, 40⟩ .opened) =
        (.ok ⟨⟩, .shared) := rfl
  have hfreed := hreleases
  rw [ReleasesOnce, hcall] at hfreed
  have hrefs := (hfreed.2 _ hrun rfl).refs
  exact ⟨hreleases, _, hrun, rfl, List.perm_singleton.mp hrefs⟩

/-- An open file without BOs, and a job that names the BO of handle 7. -/
theorem not_submitJob_releases :
    ∃ s, Reaches ⟨16, 40⟩ s ∧ (s.files 0).priv ∧
      ¬ ∀ env f desc, desc.taskCount ≠ 0 → ReleasesOnce ⟨16, 40⟩ env f desc s := by
  refine ⟨.opened, .opened _, rfl, fun h => ?_⟩
  have hr := h { SubmitEnv.smooth with inBos := ⟨true, true, fun _ => some 7⟩ } 0
    { JobDesc.oneTask with inBoHandleCount := 1 } (by decide) 0 (Nat.le_refl _) Nat.one_pos
  have hfreed : 0 = 1 := hr.freed
  cases hfreed

end RocketNpu.Drm
