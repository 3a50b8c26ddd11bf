import RocketNpu.Drm.SubmitEndings

namespace RocketNpu.Drm
open Runs Refcount Calls Call

variable {abi : Abi} {s t : State} {f j k b : ℕ}

/-- What is known of the job's record at the end of a submission. -/
def SubmitEnding.Fits (table : List (ℕ × ℕ)) (desc : JobDesc) : SubmitEnding → Prop
  | .noTasks | .noJob => True
  | .unprepared job =>
    job.stage = .preparing ∧ job.frees = 0 ∧ job.domain = none ∧
      ∀ b ∈ job.taken, ∃ k, (k, b) ∈ table
  | .noArray job | .notPushed job _ | .pushed job =>
    (startJob desc).Kept job ∧ job.Prepared desc ∧ ∀ b ∈ job.taken, ∃ k, (k, b) ∈ table

theorem SubmitEnv.ending_fits (abi : Abi) (env : SubmitEnv) (table : List (ℕ × ℕ))
    (desc : JobDesc) : (env.ending abi table desc).Fits table desc := by
  have hkept : (startJob desc).Kept (prepared abi env table desc (startJob desc)).1 := prepared_kept
  have hmem : ∀ b ∈ (prepared abi env table desc (startJob desc)).1.taken, ∃ k, (k, b) ∈ table :=
    fun b hb => (prepared_mem hb).resolve_left List.not_mem_nil
  have hready := @prepared_none abi env table desc
  unfold ending
  split_ifs
  · trivial
  · trivial
  cases env.schedInit with
  | some e => exact ⟨rfl, rfl, rfl, fun b hb => absurd hb List.not_mem_nil⟩
  | none =>
  unfold startJob at hkept hmem ⊢
  generalize prepared abi env table desc _ = prep at hkept hmem hready ⊢
  obtain ⟨job, _ | e⟩ := prep
  case some => exact ⟨hkept.stage, hkept.frees, hkept.domain, hmem⟩
  dsimp only
  split_ifs
  · exact ⟨hkept, hready rfl, hmem⟩
  · cases pushError env job.inBoCount job.outBoCount with
    | some e => exact ⟨hkept, hready rfl, hmem⟩
    | none => exact ⟨hkept, hready rfl, hmem⟩

namespace Wf

/-- The scheduler gets a job, or takes it off its entity. -/
theorem giveJob (h : Wf s) {st : Stage} (hlt : j < s.nextJob)
    (hr : ({ s.jobs j with stage := st }).Ready) (hh : s.Holds j (s.jobs j).taken) :
    Wf (s.setJob j ({ · with stage := st })) := by
  refine ⟨⟨h.sound, h.live, h.unborn, fun j' hn => ?_, fun j' hp => ?_, fun j' hp => ?_⟩,
    h.entry, h.handle, h.unopened⟩ <;> by_cases he : j' = j
  · subst he
    exact absurd hlt (Nat.not_lt.mpr hn)
  · simpa [he] using h.future j' hn
  · subst he
    simpa using hr
  · simp only [State.setJob_jobs, Function.update_of_ne he] at hp ⊢
    exact h.ready j' hp
  · subst he
    simpa [State.Holds] using hh
  · simp only [State.setJob_jobs, Function.update_of_ne he] at hp ⊢
    exact h.held j' hp

theorem afterSubmit (h : Wf s) {desc : JobDesc} {c : SubmitEnding}
    (hc : c.Fits (s.files f).handles desc) : Wf (s.afterSubmit f c) := by
  cases c with
  | noTasks => exact h
  | noJob => exact h
  | unprepared job =>
    obtain ⟨hstage, -, -, hmem⟩ := hc
    exact (h.withJob hstage fun b hb => ⟨f, hmem b hb⟩).expect _ _
  | noArray job =>
    obtain ⟨hkept, -, hmem⟩ := hc
    exact h.acquired hkept.stage fun b hb => ⟨f, hmem b hb⟩
  | notPushed job e =>
    obtain ⟨hkept, hprep, hmem⟩ := hc
    exact (h.unpush hkept hprep (fun b hb => ⟨f, hmem b hb⟩) e).2
  | pushed job =>
    obtain ⟨hkept, hprep, hmem⟩ := hc
    have hwf : Wf (s.acquired f job) := h.acquired hkept.stage fun b hb => ⟨f, hmem b hb⟩
    have hgiven : Wf ((s.acquired f job).setJob s.nextJob ({ · with stage := .queued })) := by
      refine hwf.giveJob (Nat.lt_succ_self _) ?_ ?_ <;> rw [State.acquired_job]
      · exact ⟨hkept.refcount, ⟨f, rfl⟩, hprep.taken, hkept.dropped, hkept.schedInits,
          hkept.schedCleanups, hprep.tasksAllocs, hprep.tasksFrees, hkept.frees⟩
      · exact State.acquired_holds f job s
    rw [State.afterSubmit]
    exact hgiven.setFile rfl id

theorem newFile (h : Wf s) : Wf s.newFile := by
  have hnil := (h.unopened s.nextFile (Nat.le_refl _)).1
  have hsame : ∀ f, (s.newFile.files f).handles = (s.files f).handles := by
    intro f
    by_cases hf : f = s.nextFile
    · simp [hf, hnil]
    · simp [hf]
  refine ⟨⟨h.sound, h.live, h.unborn, h.future, h.ready, h.held⟩, fun f k b he => ?_,
    fun b k => ?_, fun f hf => ?_⟩
  · exact h.entry f k b (hsame f ▸ he)
  · rw [hsame]
    exact h.handle b k
  · have hne : f ≠ s.nextFile := by
      rintro rfl
      exact absurd hf (Nat.not_succ_le_self _)
    simpa [hne] using h.unopened f (Nat.le_of_succ_le hf)

end Wf

/-- After `rocket_postclose`, or when `rocket_open` gives the file up. -/
@[simps! -fullyApplied]
def State.privDropped (f : ℕ) (s : State) : State :=
  ((s.drmMmTakedown f).domainPut .file f).setFile f ({ · with priv := false })

theorem dropPriv_eq (f : ℕ) (s : State) : dropPriv f s = (.ok ⟨⟩, s.privDropped f) := rfl

theorem Wf.privDropped (h : Wf s) (f : ℕ) : Wf (s.privDropped f) :=
  ((h.expect _ _).domainPut _ _).setFile rfl (by simp)

theorem rocketOpen_cases (env : OpenEnv) (s : State) :
    (rocketOpen env s).2 = s ∨ (rocketOpen env s).2 = s.newFile ∨
      (rocketOpen env s).2 = s.newFile.privDropped s.nextFile := by
  obtain ⟨_ | _, _ | _, _ | _, _ | e, _ | _, _ | e'⟩ := env <;>
    simp [rocketOpen, rocketJobOpen, bind_apply, onError, attempt, dropPriv_eq]

/-- A handle that is not in the table is refused. -/
theorem Wf.dropHandle_cases (h : Wf s) (f k : ℕ) :
    (drmGemHandleDelete f k s).2 = s ∨ ∃ b, (k, b) ∈ (s.files f).handles ∧
      (drmGemHandleDelete f k s).2 =
        (s.setFile f fun file => { file with handles := file.handles.erase (k, b) }).boPut
          (.handle k) b := by
  unfold drmGemHandleDelete
  simp only [bind_apply, read_apply]
  cases hb : (s.files f).handles.lookup k with
  | none => exact .inl rfl
  | some b =>
    obtain ⟨l₁, l₂, heq, -⟩ := List.lookup_eq_some_iff.mp hb
    refine .inr ⟨b, by simp [heq], ?_⟩
    have hput := drmGemObjectPut_live (w := .handle k) (b := b)
      (s := s.setFile f fun file => { file with handles := file.handles.erase (k, b) })
      fun h1 => h.live b (by simpa using Nat.lt_of_lt_of_eq Nat.one_pos h1.symm)
    simp only [bind_apply, modify_apply, hput]

theorem State.mem_queue (h : j ∈ s.queue f) : (s.jobs j).stage = .queued := by
  simpa using (List.mem_filter.mp h).2

theorem Wf.lt_nextJob (h : Wf s) (hp : (s.jobs j).stage.Pending) : j < s.nextJob := by
  by_contra hn
  rw [h.future j (Nat.le_of_not_lt hn)] at hp
  exact hp

theorem Wf.step (h : Wf s) {op : Op} (ha : op.Admissible s) : Wf (op.run abi s) := by
  cases op with
  | «open» env =>
    rcases rocketOpen_cases env s with he | he | he <;> rw [Op.run, he]
    · exact h
    · exact h.newFile
    · exact h.newFile.privDropped _
  | createBo env f size => exact h.createBo ha.1 env size
  | submitJob env f desc =>
    rw [Op.run, rocketIoctlSubmitJob_eq h]
    exact h.afterSubmit (env.ending_fits abi _ desc)
  | dropHandle f k =>
    rcases h.dropHandle_cases f k with he | ⟨b, hm, he⟩ <;> rw [Op.run, he]
    · exact h
    · exact h.deleteHandle hm
  | takeJob f j =>
    have hq : (s.jobs j).stage = .queued := State.mem_queue (List.mem_of_mem_head? ha)
    have hp : (s.jobs j).stage.Pending := by simp [hq, Stage.Pending]
    have hr := h.ready j hp
    exact h.giveJob (h.lt_nextJob hp) { hr with } (h.held j hp)
  | freeJob j =>
    have htaken : (s.jobs j).stage = .taken := ha
    have hp : (s.jobs j).stage.Pending := by simp [htaken, Stage.Pending]
    obtain ⟨f, hf⟩ := (h.ready j hp).domain
    rw [Op.run, (h.freeJob ha hf).1]
    exact (h.freeJob ha hf).2
  | postclose f => exact h.privDropped f

theorem Reaches.wf (h : Reaches abi s) : Wf s := by
  apply h.invariant
  · rintro s rfl
    exact .init
  · rintro s op t hs ⟨ha, rfl⟩
    exact hs.step ha

end RocketNpu.Drm
