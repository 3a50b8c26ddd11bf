import RocketNpu.Lib.Counting
import RocketNpu.Drm.Address
import RocketNpu.Drm.DomainRuns
import RocketNpu.Drm.Lifetime

namespace RocketNpu.Drm
open Runs Refcount Calls Call Counting

variable {abi : Abi} {s t : State} {f j b : ℕ} {w : BoHolder} {desc : JobDesc}

namespace State

/-- The references a job should hold on a BO: those its lookups took, until it is cleaned
up. -/
def jobRefs (s : State) (j b : ℕ) : ℕ :=
  if j < s.nextJob ∧ (s.jobs j).frees = 0 then (s.jobs j).taken.count b else 0

theorem boPut_count_self (b b' : ℕ) : ((s.boPut w b).bos b').kref.holders.count w =
    (s.bos b').kref.holders.count w - if b' = b then 1 else 0 := by
  by_cases hb : b' = b
  · subst hb
    simp [boPut_bo, Ref.put]
  · rw [boPut_ne hb, if_neg hb, Nat.sub_zero]

theorem bosPut_count_self (j : ℕ) (bs : List ℕ) (s : State) (b : ℕ) :
    ((s.bosPut j bs).bos b).kref.holders.count (.job j) =
      (s.bos b).kref.holders.count (.job j) - bs.count b := by
  induction bs generalizing s with
  | nil => rfl
  | cons b' bs ih =>
    rw [bosPut, ih, setJob_bos, boPut_count_self, List.count_cons, Nat.sub_sub, Nat.add_comm]
    simp only [beq_iff_eq, @eq_comm ℕ b b']

theorem bosPut_count_ne (hw : w ≠ .job j) (bs : List ℕ) (s : State) (b : ℕ) :
    ((s.bosPut j bs).bos b).kref.holders.count w = (s.bos b).kref.holders.count w :=
  bosPut_induct (P := fun t => (t.bos b).kref.holders.count w = (s.bos b).kref.holders.count w) j
    (fun t b' h => by rw [boPut_count_ne hw, h]) (fun t b' h => h) bs s rfl

end State

/-- Each job holds what its lookups took, until it is cleaned up. -/
def JobsHold (s : State) : Prop :=
  ∀ b j, (s.bos b).kref.holders.count (.job j) = s.jobRefs j b

namespace JobsHold

theorem init : JobsHold .init := fun _ _ => rfl

theorem congr (h : JobsHold s)
    (hcount : ∀ b j, (t.bos b).kref.holders.count (.job j) = (s.bos b).kref.holders.count (.job j))
    (hjobs : ∀ j, (t.jobs j).frees = (s.jobs j).frees ∧ (t.jobs j).taken = (s.jobs j).taken)
    (hnext : t.nextJob = s.nextJob) : JobsHold t := by
  intro b j
  obtain ⟨hfrees, htaken⟩ := hjobs j
  rw [hcount, h b j, State.jobRefs, State.jobRefs, hnext, hfrees, htaken]

theorem setJob (h : JobsHold s) {g : Job → Job} (hfrees : (g (s.jobs j)).frees = (s.jobs j).frees)
    (htaken : (g (s.jobs j)).taken = (s.jobs j).taken) : JobsHold (s.setJob j g) := by
  refine h.congr (fun _ _ => rfl) (fun j' => ?_) rfl
  by_cases he : j' = j
  · subst he
    simp [hfrees, htaken]
  · simp [he]

/-- The holders of a new object are no jobs. -/
theorem afterCreate (h : JobsHold s) (hw : Wf s) (env : CreateEnv) (f : ℕ) (size : BitVec 32)
    (c : CreateEnding) : JobsHold (s.afterCreate env f size c) := by
  obtain ⟨hjobs, hnext⟩ := State.afterCreate_jobs env f size s c
  refine h.congr (fun b j => ?_) (fun j => by simp [hjobs]) hnext
  by_cases hb : b = s.nextBo
  · subst hb
    rw [hw.unborn _ (Nat.le_refl _)]
    have hkref := State.boHandled_kref f size (s := s)
    have hinserted : ∀ k, ((s.boInserted env f size k).bos s.nextBo).kref = ⟨1, [.handle k]⟩ := by
      intro k
      unfold State.boInserted State.drmMmInsertNode
      split <;> simp [hkref]
    cases c with
    | shmem e => simp [State.afterCreate, hw.unborn _ (Nat.le_refl _)]
    | handle e => simp [State.afterCreate, State.boPut_bo, Ref.init, Ref.put]
    | sgt k e => simp [State.afterCreate, hkref]
    | unmapped k => simp [State.afterCreate, hinserted]
    | truncated k => simp [State.afterCreate, State.boMapped, hinserted]
    | done k => simp [State.afterCreate, State.boMapped, hinserted]
  · rw [State.afterCreate_ne hb]

/-- A new job holds what it took. -/
theorem withJob (h : JobsHold s) {job : Job} (hfrees : job.frees = 0) :
    JobsHold (s.withJob job job.taken) := by
  intro b j
  have hold := h b j
  simp only [State.withJob_bos, Ref.getMany, List.count_append, State.jobRefs,
    State.withJob_nextJob, State.withJob_jobs] at hold ⊢
  by_cases hj : j = s.nextJob
  · subst hj
    rw [hold]
    simp [hfrees]
  · have hlt : j < s.nextJob + 1 ↔ j < s.nextJob := by omega
    have hno : BoHolder.job j ∉ List.replicate (job.taken.count b) (.job s.nextJob) := by
      simp [hj]
    rw [hold, List.count_eq_zero_of_not_mem hno, Nat.zero_add, Function.update_of_ne hj]
    exact if_congr (and_congr_left' hlt.symm) rfl rfl

/-- The cleanup drops all that the job took. -/
theorem jobCleaned (h : JobsHold s) (f : ℕ)
    (ht : (s.jobs j).taken = (s.jobs j).ins ++ (s.jobs j).outs) : JobsHold (s.jobCleaned f j) := by
  intro b j'
  have hjobs := State.jobCleaned_jobs f j s
  have hbos : ∀ b, (s.jobCleaned f j).bos b =
      ((s.domainPut (.job j) f).bosPut j ((s.jobs j).ins ++ (s.jobs j).outs)).bos b := fun _ => rfl
  have hold : ((s.domainPut (.job j) f).bos b).kref = (s.bos b).kref := rfl
  have hnext : (s.jobCleaned f j).nextJob = s.nextJob := by simp [State.jobCleaned]
  by_cases hj : j' = j
  · subst hj
    rw [hbos, State.bosPut_count_self, hold, h b j', ← ht]
    simp only [State.jobRefs, hjobs, Function.update_self]
    split_ifs <;> simp_all
  · rw [hbos, State.bosPut_count_ne (by simpa using hj), hold, h b j']
    simp [State.jobRefs, hjobs, hnext, hj]

theorem afterSubmit (h : JobsHold s) (f : ℕ) {table : List (ℕ × ℕ)} {c : SubmitEnding}
    (hc : c.Fits table desc) : JobsHold (s.afterSubmit f c) := by
  have hacquired : ∀ job : Job, job.frees = 0 → JobsHold (s.acquired f job) := by
    intro job hf
    have hwith : JobsHold (s.withJob { job with domain := some f } job.taken) := h.withJob hf
    exact hwith
  cases c with
  | noTasks => exact h
  | noJob => exact h
  | unprepared job => exact h.withJob hc.2.1
  | noArray job => exact hacquired job hc.1.frees
  | notPushed job e =>
    rw [State.afterSubmit]
    refine ((hacquired job hc.1.frees).setJob ?_ ?_).jobCleaned f ?_
    · rfl
    · rfl
    · simpa [State.acquired_job, Job.ins, Job.outs] using hc.2.1.taken
  | pushed job =>
    have hset : JobsHold ((s.acquired f job).setJob s.nextJob ({ · with stage := .queued })) :=
      (hacquired job hc.1.frees).setJob rfl rfl
    exact hset

theorem step (h : JobsHold s) (hw : Wf s) {op : Op} (ha : op.Admissible s) :
    JobsHold (op.run abi s) := by
  cases op with
  | «open» env =>
    rcases rocketOpen_cases env s with he | he | he <;> rw [Op.run, he] <;> exact h
  | createBo env f size =>
    rw [Op.run, rocketIoctlCreateBo_eq]
    exact h.afterCreate hw env f size _
  | submitJob env f desc =>
    rw [Op.run, rocketIoctlSubmitJob_eq hw]
    exact h.afterSubmit f (env.ending_fits abi _ desc)
  | dropHandle f k =>
    rcases hw.dropHandle_cases f k with he | ⟨b, -, he⟩ <;> rw [Op.run, he]
    · exact h
    · refine h.congr (fun b' j => ?_) (fun j => by simp) (by simp)
      rw [State.boPut_count_ne (by simp)]
      rfl
  | takeJob f j =>
    have hset : JobsHold (s.setJob j ({ · with stage := .taken })) := h.setJob rfl rfl
    exact hset
  | freeJob j =>
    have htaken : (s.jobs j).stage = .taken := ha
    have hready := hw.ready j (by simp [htaken, Stage.Pending])
    obtain ⟨f, hf⟩ := hready.domain
    rw [Op.run, (hw.freeJob ha hf).1]
    refine (h.setJob ?_ ?_).jobCleaned f ?_
    · rfl
    · rfl
    · simpa [Job.ins, Job.outs] using hready.taken
  | postclose f => exact h

end JobsHold

theorem Reaches.held (h : Reaches abi s) : s.Created ∧ JobsHold s := by
  suffices hi : Wf s ∧ s.Created ∧ JobsHold s from hi.2
  apply h.invariant (I := fun s => Wf s ∧ s.Created ∧ JobsHold s)
  · rintro s rfl
    exact ⟨.init, fun _ => List.not_mem_nil, .init⟩
  · rintro s op t ⟨hw, hc, hj⟩ ⟨ha, rfl⟩
    exact ⟨hw.step ha, hc.step hw ha, hj.step hw ha⟩

end RocketNpu.Drm
