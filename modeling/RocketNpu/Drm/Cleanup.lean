import RocketNpu.Drm.Steps

namespace RocketNpu.Drm
open Refcount Calls Call

variable {s : State} {b f j : ℕ} {bs : List ℕ}

namespace State

theorem bosPut_jobs (j : ℕ) (bs : List ℕ) (s : State) :
    (s.bosPut j bs).jobs = Function.update s.jobs j
      { s.jobs j with dropped := (s.jobs j).dropped ++ bs } := by
  induction bs generalizing s with
  | nil => simp [bosPut]
  | cons b bs ih =>
    rw [bosPut, ih]
    simp

/-- What the puts of a job preserve: whatever a single put and its record preserve. -/
theorem bosPut_induct {P : State → Prop} (j : ℕ) (hput : ∀ s b, P s → P (s.boPut (.job j) b))
    (hset : ∀ s b, P s → P (s.setJob j fun job => { job with dropped := job.dropped ++ [b] }))
    (bs : List ℕ) (s : State) (h : P s) : P (s.bosPut j bs) := by
  induction bs generalizing s with
  | nil => exact h
  | cons b bs ih => exact ih _ (hset _ _ (hput _ _ h))

@[simp] theorem bosPut_nextJob (j : ℕ) (bs : List ℕ) (s : State) :
    (s.bosPut j bs).nextJob = s.nextJob :=
  bosPut_induct (P := fun t => t.nextJob = s.nextJob) j (fun t b h => by simpa using h)
    (fun t g h => h) bs s rfl

@[simp] theorem bosPut_handles (j : ℕ) (bs : List ℕ) (s : State) (f : ℕ) :
    ((s.bosPut j bs).files f).handles = (s.files f).handles :=
  bosPut_induct (P := fun t => (t.files f).handles = (s.files f).handles) j
    (fun t b h => by simpa using h) (fun t g h => h) bs s rfl

@[simp] theorem bosPut_pushed (j : ℕ) (bs : List ℕ) (s : State) (f : ℕ) :
    ((s.bosPut j bs).files f).pushed = (s.files f).pushed :=
  bosPut_induct (P := fun t => (t.files f).pushed = (s.files f).pushed) j
    (fun t b h => by simpa using h) (fun t g h => h) bs s rfl

end State

/-- The job holds at least the references of `bs`. -/
def State.Holds (s : State) (j : ℕ) (bs : List ℕ) : Prop :=
  ∀ b, bs.count b ≤ (s.bos b).kref.holders.count (.job j)

theorem State.Holds.mem (h : s.Holds j (b :: bs)) : .job j ∈ (s.bos b).kref.holders := by
  rw [← List.count_pos_iff]
  have := h b
  simp only [List.count_cons_self] at this
  omega

theorem State.Holds.boPut (h : s.Holds j (b :: bs)) : (s.boPut (.job j) b).Holds j bs := by
  intro b'
  have hb' := h b'
  by_cases hb : b' = b
  · subst hb
    simp only [State.boPut_bo, Ref.put, List.count_erase_self]
    simp only [List.count_cons_self] at hb'
    omega
  · rw [State.boPut_ne hb]
    simpa [List.count_cons, Ne.symm hb] using hb'

/-- A job that is no longer the scheduler's may drop what it holds. -/
theorem Wf.each_rocketBoPut (h : Wf s) (hj : ¬ (s.jobs j).stage.Pending) (hh : s.Holds j bs) :
    each (rocketBoPut j) bs s = (.ok ⟨⟩, s.bosPut j bs) ∧ Wf (s.bosPut j bs) := by
  induction bs generalizing s with
  | nil => exact ⟨rfl, h⟩
  | cons b bs ih =>
    have hput : Wf (s.boPut (.job j) b) := h.boPut hh.mem (by simp) (by
      intro j' he
      cases he
      exact hj)
    have hnext : Wf ((s.boPut (.job j) b).setJob j fun job =>
        { job with dropped := job.dropped ++ [b] }) := hput.setJob (by simpa using hj) (.inl rfl)
    have hone : rocketBoPut j b s = (.ok ⟨⟩, (s.boPut (.job j) b).setJob j fun job =>
        { job with dropped := job.dropped ++ [b] }) := by
      rw [rocketBoPut, bind_ok (h.put_live (.job j) b), modify_apply]
    -- the induction is on what is left to put
    rw [each_cons_ok bs hone]
    exact ih hnext (by simpa using hj) hh.boPut

namespace State

/-- After `rocket_job_cleanup` of a job with the domain of file `f`. -/
def jobCleaned (f j : ℕ) (s : State) : State :=
  ((s.domainPut (.job j) f).bosPut j ((s.jobs j).ins ++ (s.jobs j).outs)).setJob j fun job =>
    { job with
      tasksFrees := job.tasksFrees + (if job.tasks.isSome then 1 else 0)
      frees := job.frees + 1 }

theorem jobCleaned_jobs (f j : ℕ) (s : State) : (s.jobCleaned f j).jobs =
    Function.update s.jobs j { s.jobs j with
      dropped := (s.jobs j).dropped ++ ((s.jobs j).ins ++ (s.jobs j).outs)
      tasksFrees := (s.jobs j).tasksFrees + if (s.jobs j).tasks.isSome then 1 else 0
      frees := (s.jobs j).frees + 1 } := by
  simp [jobCleaned, bosPut_jobs]

end State

theorem Wf.rocketJobCleanup (h : Wf s) (hj : ¬ (s.jobs j).stage.Pending)
    (hd : (s.jobs j).domain = some f) (hh : s.Holds j ((s.jobs j).ins ++ (s.jobs j).outs)) :
    rocketJobCleanup j s = (.ok ⟨⟩, s.jobCleaned f j) ∧ Wf (s.jobCleaned f j) := by
  have hput : Wf (s.domainPut (.job j) f) := h.domainPut _ _
  have hfirst : (s.domainPut (.job j) f).Holds j (s.jobs j).ins := fun b =>
    Nat.le_trans ((List.sublist_append_left _ _).count_le b) (hh b)
  obtain ⟨hall, hwf⟩ := hput.each_rocketBoPut (j := j) hj hh
  obtain ⟨hins, -⟩ := hput.each_rocketBoPut (j := j) hj hfirst
  have houts := (each_append_ok (s.jobs j).outs hins).symm.trans hall
  constructor
  · rw [Drm.rocketJobCleanup]
    simp only [bind_apply, read_apply, hd, rocketIommuDomainPut, modify_apply, hins, houts]
    simp [State.jobCleaned, State.setJob]
  · exact hwf.setJob (by simpa [State.bosPut_jobs] using hj) (.inl rfl)

/-- The last reference on a job goes, under a change of the record that the job's BOs and its
domain survive. -/
theorem Wf.rocketJobPut_last (h : Wf s) {g : Job → Job} (hj : ¬ (g (s.jobs j)).stage.Pending)
    (hg : (g (s.jobs j)).stage = (s.jobs j).stage ∨ j < s.nextJob)
    (hone : (g (s.jobs j)).refcount = 1) (hd : (g (s.jobs j)).domain = some f)
    (hh : s.Holds j ((g (s.jobs j)).ins ++ (g (s.jobs j)).outs)) :
    let t := s.setJob j fun job => { g job with refcount := 0 }
    rocketJobPut j (s.setJob j g) = (.ok ⟨⟩, t.jobCleaned f j) ∧ Wf (t.jobCleaned f j) := by
  intro t
  have hput :
      (s.setJob j g).setJob j (fun job => { job with refcount := job.refcount - 1 }) = t := by
    simp [t, State.setJob, hone]
  have ht : Wf t := h.setJob (g := fun job => { g job with refcount := 0 }) hj hg
  have hclean : Drm.rocketJobCleanup j t = (.ok ⟨⟩, t.jobCleaned f j) ∧ Wf (t.jobCleaned f j) := by
    apply ht.rocketJobCleanup
    · simpa [t] using hj
    · simpa [t] using hd
    · simp only [t, State.setJob_jobs, Function.update_self]
      exact hh
  refine ⟨?_, hclean.2⟩
  simp only [rocketJobPut, bind_apply, read_apply, modify_apply, hput]
  simp only [State.setJob_jobs, Function.update_self, hone, if_true]
  exact hclean.1

/-- After `free_job`. -/
def State.jobFreed (f j : ℕ) (s : State) : State :=
  (s.setJob j fun job => { job with
    stage := .freed, schedCleanups := job.schedCleanups + 1, refcount := 0 }).jobCleaned f j

/-- `free_job` finds what it needs. -/
theorem Wf.freeJob (h : Wf s) (hj : (s.jobs j).stage = .taken) (hd : (s.jobs j).domain = some f) :
    Drm.freeJob j s = (.ok ⟨⟩, s.jobFreed f j) ∧ Wf (s.jobFreed f j) := by
  have hp : (s.jobs j).stage.Pending := by simp [hj, Stage.Pending]
  have hready := h.ready j hp
  have hlt : j < s.nextJob := by
    by_contra hn
    simpa [hj] using h.future j (Nat.le_of_not_lt hn)
  have hlast := h.rocketJobPut_last (j := j) (f := f)
    (g := fun job => { job with stage := .freed, schedCleanups := job.schedCleanups + 1 })
    id (.inr hlt) hready.refcount hd (by
      intro b
      have := h.held j hp b
      rwa [hready.taken] at this)
  refine ⟨?_, hlast.2⟩
  rw [← State.setJob_setJob s j ({ · with stage := .freed })
    (fun job => { job with schedCleanups := job.schedCleanups + 1 })] at hlast
  exact hlast.1

end RocketNpu.Drm
