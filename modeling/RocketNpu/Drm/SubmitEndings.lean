import RocketNpu.Drm.Cleanup
import RocketNpu.Drm.Prepare

namespace RocketNpu.Drm
open Refcount Calls Call

variable {abi : Abi} {env : SubmitEnv} {s : State} {f j : ℕ} {desc : JobDesc}

/-- How `rocket_ioctl_submit_job` ends, with the record the job has when it does: refused, no
job allocated, failed before the job had its domain, without the array of its BOs, failed in
`rocket_job_push`, or pushed. -/
inductive SubmitEnding where
  | noTasks
  | noJob
  | unprepared (job : Job)
  | noArray (job : Job)
  | notPushed (job : Job) (e : Errno)
  | pushed (job : Job)

/-- The first error of `rocket_job_push`. -/
def pushError (env : SubmitEnv) (ins outs : ℕ) : Option Errno :=
  env.lock <|> rocketAcquireObjectFences env.inFences ins <|>
    rocketAcquireObjectFences env.outFences outs

/-- The record of a job whose scheduler part is initialised. -/
def startJob (desc : JobDesc) : Job := { desc := desc, schedInits := 1 }

def SubmitEnv.ending (abi : Abi) (env : SubmitEnv) (table : List (ℕ × ℕ)) (desc : JobDesc) :
    SubmitEnding :=
  if desc.taskCount = 0 then .noTasks
  else if !env.kzalloc then .noJob
  else
    match env.schedInit, prepared abi env table desc (startJob desc) with
    | some _, _ => .unprepared { desc := desc, refcount := 0 }
    | none, (job, some _) => .unprepared { job with schedCleanups := 1, refcount := 0 }
    | none, (job, none) =>
      if !env.bosAlloc ∧ job.inBoCount + job.outBoCount ≠ 0 then .noArray job
      else
        match pushError env job.inBoCount job.outBoCount with
        | some e => .notPushed job e
        | none => .pushed job

namespace State

/-- The state when the job has its domain. -/
@[simps! -fullyApplied]
def acquired (f : ℕ) (job : Job) (s : State) : State :=
  (s.withJob { job with domain := some f } job.taken).domainGet (.job s.nextJob) f

/-- What an ending leaves behind. -/
def afterSubmit (f : ℕ) (s : State) : SubmitEnding → State
  | .noTasks | .noJob => s
  | .unprepared job =>
    (s.withJob job job.taken).expect False (.putWithout (.job s.nextJob))
  | .noArray job => s.acquired f job
  | .notPushed job _ =>
    ((s.acquired f job).setJob s.nextJob fun job =>
      { job with schedCleanups := job.schedCleanups + 1, refcount := 0 }).jobCleaned f s.nextJob
  | .pushed job => ((s.acquired f job).setJob s.nextJob ({ · with stage := .queued })).setFile f
      fun file => { file with pushed := file.pushed ++ [s.nextJob] }

end State

def SubmitEnding.outcome : SubmitEnding → Outcome Errno Oops PUnit
  | .noTasks => .error .einval
  | .noJob => .error .enomem
  | .unprepared _ => .died .nullDomain
  | .noArray _ => .died .nullCopy
  | .notPushed _ e => .error e
  | .pushed _ => .ok ⟨⟩

theorem rocketJobPush_eq (env : SubmitEnv) (f j : ℕ) (s : State) :
    rocketJobPush env f j s =
      if !env.bosAlloc ∧ (s.jobs j).inBoCount + (s.jobs j).outBoCount ≠ 0 then
        (.died .nullCopy, s)
      else
        match pushError env (s.jobs j).inBoCount (s.jobs j).outBoCount with
        | some e => (.error e, s)
        | none => (.ok ⟨⟩, s.pushJob f j) := by
  unfold rocketJobPush pushError
  simp only [bind_apply, read_apply]
  split_ifs
  · rfl
  · cases env.lock <;> cases rocketAcquireObjectFences env.inFences (s.jobs j).inBoCount <;>
      cases rocketAcquireObjectFences env.outFences (s.jobs j).outBoCount <;>
        simp [bind_apply]

/-- A job without a domain: its cleanup does not come back. -/
theorem rocketJobPut_nullDomain (h1 : (s.jobs j).refcount = 1) (hd : (s.jobs j).domain = none) :
    rocketJobPut j s = (.died .nullDomain,
      (s.setJob j fun job => { job with refcount := 0 }).expect False (.putWithout (.job j))) := by
  simp [rocketJobPut, rocketJobCleanup, bind_apply, h1, hd, rocketIommuDomainPut, State.setJob]

/-- References for a job that the scheduler does not have, on BOs that have a handle. -/
theorem Wf.withJob (h : Wf s) {job : Job} {bs : List ℕ} (hj : job.stage = .preparing)
    (hbs : ∀ b ∈ bs, ∃ f k, (k, b) ∈ (s.files f).handles) : Wf (s.withJob job bs) := by
  have hheld : ∀ b ∈ bs, (s.bos b).kref.holders ≠ [] := by
    intro b hb hnil
    obtain ⟨f, k, hm⟩ := hbs b hb
    have := h.handle_mem hm
    rw [hnil] at this
    exact absurd this List.not_mem_nil
  have hold : ∀ j, ((s.withJob job bs).jobs j).stage.Pending →
      (s.withJob job bs).jobs j = s.jobs j := by
    intro j hp
    by_cases he : j = s.nextJob
    · subst he
      exact absurd hp (by simp [hj, Stage.Pending])
    · simp [he]
  refine ⟨⟨fun b => ?_, fun b hc => ?_, fun b hb => ?_, fun j hn => ?_, fun j hp => ?_,
    fun j hp b => ?_⟩, h.entry, fun b k => ?_, h.unopened⟩
  · exact (h.sound b).getMany _ _
  · by_cases hb : b ∈ bs
    · exact h.live b (Nat.pos_of_ne_zero fun h0 => hheld b hb ((h.sound b).count_eq_zero.mp h0))
    · simp only [State.withJob, Ref.getMany, List.count_eq_zero_of_not_mem hb] at hc
      exact h.live b hc
  · have hb' : b ∉ bs := fun hm => hheld b hm (h.unborn b hb)
    simp [Ref.getMany, List.count_eq_zero_of_not_mem hb', h.unborn b hb]
  · have hne : j ≠ s.nextJob := by
      rintro rfl
      exact absurd hn (Nat.not_succ_le_self _)
    simpa [hne] using h.future j (Nat.le_of_succ_le hn)
  · have he := hold j hp
    rw [he] at hp ⊢
    exact h.ready j hp
  · have he := hold j hp
    rw [he] at hp ⊢
    exact Nat.le_trans (h.held j hp b) (by simp [Ref.getMany])
  · have hk := h.handle b k
    simpa [Ref.getMany, List.count_replicate] using hk

theorem State.acquired_holds (f : ℕ) (job : Job) (s : State) :
    (s.acquired f job).Holds s.nextJob job.taken := by
  intro b
  simp

theorem State.acquired_job (f : ℕ) (job : Job) (s : State) :
    (s.acquired f job).jobs s.nextJob = { job with domain := some f } := by
  simp

theorem Wf.acquired (h : Wf s) {job : Job} (hj : job.stage = .preparing)
    (hbs : ∀ b ∈ job.taken, ∃ f k, (k, b) ∈ (s.files f).handles) : Wf (s.acquired f job) := by
  have hwith : Wf (s.withJob { job with domain := some f } job.taken) := h.withJob hj hbs
  exact hwith.domainGet _ _

theorem rocketJobPut_more (h : (s.jobs j).refcount ≠ 1) :
    rocketJobPut j s =
      (.ok ⟨⟩, s.setJob j fun job => { job with refcount := job.refcount - 1 }) := by
  simp [rocketJobPut, bind_apply, h]

/-- The submitter's reference is put once the scheduler has its own. -/
theorem State.pushJob_put (hone : (s.jobs j).refcount = 1) :
    ((s.pushJob f j).setJob j fun job => { job with refcount := job.refcount - 1 }) =
      (s.setJob j ({ · with stage := .queued })).setFile f
        fun file => { file with pushed := file.pushed ++ [j] } := by
  simp [State.pushJob, State.setJob, State.setFile, hone]

/-- The way out of a failed push. -/
theorem Wf.unpush (h : Wf s) {job : Job} (hkept : (startJob desc).Kept job)
    (hprep : job.Prepared desc) (hmem : ∀ b ∈ job.taken, ∃ f k, (k, b) ∈ (s.files f).handles)
    (e : Errno) :
    rocketJobPut s.nextJob ((s.acquired f job).setJob s.nextJob fun job =>
        { job with schedCleanups := job.schedCleanups + 1 }) =
          (.ok ⟨⟩, s.afterSubmit f (.notPushed job e)) ∧
      Wf (s.afterSubmit f (.notPushed job e)) := by
  have hrefcount : job.refcount = 1 := hkept.refcount
  have hstage : job.stage = .preparing := hkept.stage
  have hwf : Wf (s.acquired f job) := h.acquired hstage hmem
  have hholds := State.acquired_holds f job s
  rw [hprep.taken] at hholds
  refine hwf.rocketJobPut_last (j := s.nextJob) (f := f) ?_ (.inl rfl) ?_ ?_ ?_ <;>
    rw [State.acquired_job]
  · simp [hstage, Stage.Pending]
  · exact hrefcount
  · exact hholds

theorem prepareAndPush_eq (abi : Abi) (env : SubmitEnv) (f : ℕ) (desc : JobDesc) (job : Job)
    (s : State) :
    prepareAndPush abi env f desc s.nextJob (s.withJob job job.taken) =
      match prepared abi env (s.files f).handles desc job with
      | (job, some e) => (.error e, s.withJob job job.taken)
      | (job, none) => rocketJobPush env f s.nextJob (s.acquired f job) := by
  rw [prepareAndPush, bind_apply, prepareJob_eq]
  rcases prepared abi env (s.files f).handles desc job with ⟨job', _ | e⟩
  · simp only [ending_none, bind_apply, modify_apply]
    congr 1
    simp [State.acquired, State.domainGet, State.withJob, State.setJob, State.setDomain]
  · rfl

theorem rocketIoctlSubmitJob_eq (h : Wf s) (abi : Abi) (env : SubmitEnv) (f : ℕ)
    (desc : JobDesc) : rocketIoctlSubmitJob abi env f desc s =
      ((env.ending abi (s.files f).handles desc).outcome,
        s.afterSubmit f (env.ending abi (s.files f).handles desc)) := by
  unfold rocketIoctlSubmitJob SubmitEnv.ending
  split_ifs with hc hz
  · rfl
  · rfl
  have hkept : (startJob desc).Kept (prepared abi env (s.files f).handles desc (startJob desc)).1 :=
    prepared_kept
  have hmem : ∀ b ∈ (prepared abi env (s.files f).handles desc (startJob desc)).1.taken,
      ∃ f k, (k, b) ∈ (s.files f).handles := fun b hb =>
    (prepared_mem hb).elim (fun hb => absurd hb List.not_mem_nil) fun hb => ⟨f, hb⟩
  have hready := @prepared_none abi env (s.files f).handles desc
  have hstart : (s.withJob { desc := desc } []).setJob s.nextJob
      (fun job => { job with schedInits := job.schedInits + 1 }) =
        s.withJob (startJob desc) (startJob desc).taken := by
    simp [startJob]
  simp only [bind_apply, read_apply, modify_apply, State.newJob_eq]
  cases hs : env.schedInit with
  | some e =>
    have hput := rocketJobPut_nullDomain (s := s.withJob { desc := desc } []) (j := s.nextJob)
      (by simp) (by simp)
    rw [State.withJob_setJob] at hput
    simp only [bind_apply, hput]
    rfl
  | none =>
    simp only [bind_apply, modify_apply, hstart, attempt, prepareAndPush_eq]
    unfold startJob at hkept hmem ⊢
    generalize prepared abi env (s.files f).handles desc _ = prep
      at hkept hmem hready ⊢
    obtain ⟨job, ret⟩ := prep
    have hrefcount : job.refcount = 1 := hkept.refcount
    have hstage : job.stage = .preparing := hkept.stage
    have hcleanups : job.schedCleanups = 0 := hkept.schedCleanups
    have hdomain : job.domain = none := hkept.domain
    cases ret with
    | some e =>
      -- `domain` is still NULL
      have hput := rocketJobPut_nullDomain (j := s.nextJob)
        (s := s.withJob { job with schedCleanups := job.schedCleanups + 1 } job.taken)
        (by simp [hrefcount]) (by simp [hdomain])
      simp only [bind_apply, drmSchedJobCleanup, modify_apply, State.withJob_setJob] at hput ⊢
      rw [hput]
      simp [SubmitEnding.outcome, State.afterSubmit, hcleanups]
    | none =>
    simp only [rocketJobPush_eq, State.acquired_job]
    split_ifs with hb
    · rfl
    cases pushError env job.inBoCount job.outBoCount with
    | some e =>
      simp only [bind_apply, drmSchedJobCleanup, modify_apply,
        (h.unpush (f := f) hkept (hready rfl) hmem e).1]
      rfl
    | none =>
      have hone : ((s.acquired f job).jobs s.nextJob).refcount = 1 := by
        rw [State.acquired_job]
        exact hrefcount
      have htwo : (((s.acquired f job).pushJob f s.nextJob).jobs s.nextJob).refcount ≠ 1 := by
        simp [State.pushJob, hrefcount]
      simp only [rocketJobPut_more htwo, State.pushJob_put hone]
      rfl

end RocketNpu.Drm
