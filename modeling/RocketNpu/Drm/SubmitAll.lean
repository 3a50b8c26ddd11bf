import RocketNpu.Drm.SubmitJob

namespace RocketNpu.Drm
open Runs Refcount Calls Call

variable {abi : Abi} {s t : State} {f j : ℕ} {desc : JobDesc}

/-- A call that returns 0 has pushed every job it was given, in the order of the array. -/
def ReportsTruth (abi : Abi) (env : SubmitAllEnv) (f : ℕ) (args : SubmitArgs) (s : State) :
    Prop :=
  ∀ t, rocketIoctlSubmit abi env f args s = (.ok ⟨⟩, t) →
    ∃ ids, (t.files f).pushed = (s.files f).pushed ++ ids ∧
      ids.map (fun j => some (t.jobs j).desc) = (List.range args.jobCount.toNat).map fun i =>
        env.job i (userElement args.jobs i args.jobStructSize)

/-- The call gets to its second loop, with these jobs. -/
def Accepts (abi : Abi) (env : SubmitAllEnv) (args : SubmitArgs) (descs : List JobDesc) : Prop :=
  args.jobCount ≠ 0 ∧ abi.jobSize ≤ args.jobStructSize.toNat ∧ args.reserved = 0 ∧
    (env.jobsAlloc && abi.jobSize * args.jobCount.toNat ≤ kvmallocMax) ∧
    copyJobs env args = some descs

/-- The submission of the job does not come back. -/
def Dies (abi : Abi) (env : SubmitEnv) (table : List (ℕ × ℕ)) (desc : JobDesc) : Prop :=
  desc.taskCount ≠ 0 ∧ env.kzalloc ∧ ¬ Completes abi env table desc

/-- The job gets to the entity. -/
def Pushes (abi : Abi) (env : SubmitEnv) (table : List (ℕ × ℕ)) (desc : JobDesc) : Prop :=
  desc.taskCount ≠ 0 ∧ env.kzalloc ∧ Completes abi env table desc ∧
    pushError env desc.inBoHandleCount.toNat desc.outBoHandleCount.toNat = none

def SubmitEnding.isPushed : SubmitEnding → Bool
  | .pushed _ => true
  | _ => false

theorem dies_iff (abi : Abi) (env : SubmitEnv) (table : List (ℕ × ℕ)) (desc : JobDesc) :
    Dies abi env table desc ↔ ¬ (env.ending abi table desc).Returns := by
  rw [env.ending_returns_iff, not_or, not_or, Dies]
  simp

theorem pushes_iff (abi : Abi) (env : SubmitEnv) (table : List (ℕ × ℕ)) (desc : JobDesc) :
    Pushes abi env table desc ↔ (env.ending abi table desc).isPushed := by
  by_cases hc : desc.taskCount = 0
  · simp [Pushes, SubmitEnv.ending, hc, SubmitEnding.isPushed]
  cases hz : env.kzalloc with
  | false =>
    rw [Pushes, SubmitEnv.ending, if_neg hc, if_pos (by simp [hz])]
    simp [hz, SubmitEnding.isPushed]
  | true =>
  by_cases h : Completes abi env table desc
  · obtain ⟨job, he⟩ := SubmitEnv.ending_of_completes hc hz h
    rw [he]
    cases hp : pushError env desc.inBoHandleCount.toNat desc.outBoHandleCount.toNat with
    | none => exact iff_of_true ⟨hc, hz, h, hp⟩ rfl
    | some e => simp [Pushes, hp, SubmitEnding.isPushed]
  · have hno := mt (SubmitEnv.completes_of_returns hc hz) h
    refine iff_of_false (fun hp => h hp.2.2.1) fun hp => hno ?_
    cases he : env.ending abi table desc <;> simp_all [SubmitEnding.isPushed, SubmitEnding.Returns]

namespace State

theorem afterSubmit_handles (f : ℕ) (s : State) (c : SubmitEnding) :
    ((s.afterSubmit f c).files f).handles = (s.files f).handles := by
  cases c <;> simp [afterSubmit, jobCleaned]

theorem afterSubmit_pushed (f : ℕ) (s : State) (c : SubmitEnding) :
    ((s.afterSubmit f c).files f).pushed =
      (s.files f).pushed ++ if c.isPushed then [s.nextJob] else [] := by
  cases c <;> simp [afterSubmit, jobCleaned, SubmitEnding.isPushed]

end State

theorem afterSubmit_desc {table : List (ℕ × ℕ)} {c : SubmitEnding} (hfits : c.Fits table desc)
    (hp : c.isPushed) : ((s.afterSubmit f c).jobs s.nextJob).desc = desc ∧
      s.nextJob < (s.afterSubmit f c).nextJob := by
  cases c with
  | pushed job =>
    refine ⟨?_, Nat.lt_succ_self _⟩
    simpa [State.afterSubmit, State.acquired_job, startJob] using hfits.1.desc
  | noTasks => cases hp
  | noJob => cases hp
  | unprepared job => cases hp
  | noArray job => cases hp
  | notPushed job e => cases hp

/-- One turn of the second loop of `rocket_ioctl_submit`. -/
theorem submitFrom_cons (h : Wf s) (env : ℕ → SubmitEnv) (i : ℕ) (descs : List JobDesc)
    (hret : ((env i).ending abi (s.files f).handles desc).Returns) :
    submitFrom abi env f i (desc :: descs) s = submitFrom abi env f (i + 1) descs
      (s.afterSubmit f ((env i).ending abi (s.files f).handles desc)) := by
  have heq := rocketIoctlSubmitJob_eq h abi (env i) f desc
  have hone : ∃ r, attempt (rocketIoctlSubmitJob abi (env i) f desc) s =
      (.ok r, s.afterSubmit f ((env i).ending abi (s.files f).handles desc)) := by
    cases he : (env i).ending abi (s.files f).handles desc with
    | noTasks => exact ⟨_, attempt_error (he ▸ heq)⟩
    | noJob => exact ⟨_, attempt_error (he ▸ heq)⟩
    | unprepared job => exact absurd hret (by simp [he, SubmitEnding.Returns])
    | noArray job => exact absurd hret (by simp [he, SubmitEnding.Returns])
    | notPushed job e => exact ⟨_, attempt_error (he ▸ heq)⟩
    | pushed job => exact ⟨_, attempt_ok (he ▸ heq)⟩
  obtain ⟨r, hr⟩ := hone
  rw [submitFrom, bind_ok hr]

theorem submitFrom_dies (h : Wf s) (env : ℕ → SubmitEnv) (i : ℕ) (descs : List JobDesc)
    (hdie : ∃ k d, descs[k]? = some d ∧
      ¬ ((env (i + k)).ending abi (s.files f).handles d).Returns) :
    (submitFrom abi env f i descs s).1 ≠ .ok ⟨⟩ := by
  induction descs generalizing s i with
  | nil =>
    obtain ⟨k, d, hk, -⟩ := hdie
    simp at hk
  | cons d ds ih =>
    by_cases hret : ((env i).ending abi (s.files f).handles d).Returns
    · obtain ⟨_ | k, d', hk, hd⟩ := hdie
      · obtain rfl : d = d' := by simpa using hk
        exact absurd hret hd
      · rw [submitFrom_cons h env i ds hret]
        apply ih (h.afterSubmit ((env i).ending_fits abi _ d))
        refine ⟨k, d', by simpa using hk, ?_⟩
        rw [State.afterSubmit_handles, Nat.add_assoc, Nat.add_comm 1 k]
        exact hd
    · have heq := rocketIoctlSubmitJob_eq h abi (env i) f d
      have hdead : ∃ o, rocketIoctlSubmitJob abi (env i) f d s = (.died o,
          s.afterSubmit f ((env i).ending abi (s.files f).handles d)) := by
        cases he : (env i).ending abi (s.files f).handles d with
        | unprepared job => exact ⟨_, he ▸ heq⟩
        | noArray job => exact ⟨_, he ▸ heq⟩
        | noTasks => simp [he, SubmitEnding.Returns] at hret
        | noJob => simp [he, SubmitEnding.Returns] at hret
        | notPushed job e => simp [he, SubmitEnding.Returns] at hret
        | pushed job => simp [he, SubmitEnding.Returns] at hret
      obtain ⟨o, ho⟩ := hdead
      rw [submitFrom, bind_died (attempt_died ho)]
      simp

/-- The jobs of an array that are pushed; the `k`-th has the number `i + k`. -/
def pushedDescs (abi : Abi) (env : ℕ → SubmitEnv) (table : List (ℕ × ℕ)) :
    ℕ → List JobDesc → List JobDesc
  | _, [] => []
  | i, desc :: descs =>
    (if ((env i).ending abi table desc).isPushed then [desc] else []) ++
      pushedDescs abi env table (i + 1) descs

/-- The second loop of `rocket_ioctl_submit`, when every submission comes back. -/
theorem submitFrom_returns (h : Wf s) (env : ℕ → SubmitEnv) (i : ℕ) (descs : List JobDesc)
    (hret : ∀ k d, descs[k]? = some d →
      ((env (i + k)).ending abi (s.files f).handles d).Returns) :
    ∃ t ids, submitFrom abi env f i descs s = (.ok ⟨⟩, t) ∧
      (t.files f).pushed = (s.files f).pushed ++ ids ∧
      ids.map (fun j => (t.jobs j).desc) = pushedDescs abi env (s.files f).handles i descs ∧
      (∀ j ∈ ids, s.nextJob ≤ j) ∧ ∀ j < s.nextJob, t.jobs j = s.jobs j := by
  induction descs generalizing s i with
  | nil => exact ⟨s, [], rfl, by simp, rfl, by simp, fun _ _ => rfl⟩
  | cons d ds ih =>
    have hfits := (env i).ending_fits abi (s.files f).handles d
    have hfirst := hret 0 d rfl
    have hrest : ∀ k d', ds[k]? = some d' → ((env (i + 1 + k)).ending abi
        ((s.afterSubmit f ((env i).ending abi (s.files f).handles d)).files f).handles
          d').Returns := by
      intro k d' hk
      have := hret (k + 1) d' (by simpa using hk)
      rwa [State.afterSubmit_handles, Nat.add_assoc, Nat.add_comm 1 k]
    rw [submitFrom_cons h env i ds hfirst, pushedDescs]
    have hnext := ih (h.afterSubmit hfits) (i + 1) hrest
    rw [State.afterSubmit_handles, State.afterSubmit_pushed] at hnext
    generalize (env i).ending abi (s.files f).handles d = c at hfits hnext ⊢
    obtain ⟨t, ids, hrun, hpushed, hdescs, hnew, hold⟩ := hnext
    have hle := (State.afterSubmit_nextJob f s c).1
    refine ⟨t, (if c.isPushed then [s.nextJob] else []) ++ ids, hrun, ?_, ?_, ?_, ?_⟩
    · rw [hpushed, List.append_assoc]
    · rw [List.map_append, hdescs]
      congr 1
      split_ifs with hp
      · obtain ⟨hdesc, hlt⟩ := afterSubmit_desc (s := s) (f := f) hfits hp
        simp [hold _ hlt, hdesc]
      · rfl
    · intro j hj
      rcases List.mem_append.mp hj with hj | hj
      · split_ifs at hj
        · exact Nat.le_of_eq (List.mem_singleton.mp hj).symm
        · exact absurd hj List.not_mem_nil
      · exact Nat.le_trans hle (hnew j hj)
    · intro j hj
      rw [hold j (Nat.lt_of_lt_of_le hj hle)]
      exact State.afterSubmit_jobs_ne f s c (Nat.ne_of_lt hj)

theorem length_pushedDescs_le (abi : Abi) (env : ℕ → SubmitEnv) (table : List (ℕ × ℕ)) (i : ℕ)
    (descs : List JobDesc) : (pushedDescs abi env table i descs).length ≤ descs.length := by
  induction descs generalizing i with
  | nil => exact Nat.le_refl _
  | cons d ds ih =>
    have := ih (i + 1)
    rw [pushedDescs, List.length_append, List.length_cons]
    split <;> simp <;> omega

theorem pushedDescs_eq_iff (abi : Abi) (env : ℕ → SubmitEnv) (table : List (ℕ × ℕ)) (i : ℕ)
    (descs : List JobDesc) : pushedDescs abi env table i descs = descs ↔
      ∀ k d, descs[k]? = some d → ((env (i + k)).ending abi table d).isPushed := by
  induction descs generalizing i with
  | nil => simp [pushedDescs]
  | cons d ds ih =>
    rw [pushedDescs]
    by_cases hp : ((env i).ending abi table d).isPushed
    · rw [if_pos hp, List.singleton_append, List.cons_eq_cons, eq_self, true_and, ih]
      constructor
      · rintro h (_ | k) d' hk
        · obtain rfl : d = d' := by simpa using hk
          exact hp
        · rw [← Nat.add_assoc, Nat.add_right_comm]
          exact h k d' (by simpa using hk)
      · intro h k d' hk
        rw [Nat.add_right_comm]
        exact h (k + 1) d' (by simpa using hk)
    · rw [if_neg hp, List.nil_append]
      refine iff_of_false (fun he => ?_) fun h => hp (h 0 d rfl)
      have hle := length_pushedDescs_le abi env table (i + 1) ds
      rw [he, List.length_cons] at hle
      exact absurd hle (Nat.not_succ_le_self _)

theorem rocketIoctlSubmit_accepts {env : SubmitAllEnv} {args : SubmitArgs}
    {descs : List JobDesc} (h : Accepts abi env args descs) (f : ℕ) :
    rocketIoctlSubmit abi env f args = submitFrom abi env.submit f 0 descs := by
  obtain ⟨hc, hsize, hres, halloc, hcopy⟩ := h
  rw [rocketIoctlSubmit, if_neg hc, if_neg (Nat.not_lt.mpr hsize), if_neg (by simp [hres]),
    if_neg (by simpa using halloc), hcopy]

/-- A call that does not get to its second loop returns an error, or has nothing to do. -/
theorem rocketIoctlSubmit_refuses {env : SubmitAllEnv} {args : SubmitArgs}
    (h : ∀ descs, ¬ Accepts abi env args descs)
    (hrun : rocketIoctlSubmit abi env f args s = (.ok ⟨⟩, t)) : args.jobCount = 0 ∧ t = s := by
  unfold rocketIoctlSubmit at hrun
  split_ifs at hrun with hc hsize hres halloc
  · exact ⟨hc, (Prod.mk.inj hrun).2.symm⟩
  · cases hrun
  · cases hrun
  · cases hrun
  · cases hcopy : copyJobs env args with
    | none =>
      rw [hcopy] at hrun
      cases hrun
    | some descs =>
      exact absurd ⟨hc, Nat.not_lt.mp hsize, by simpa using hres, by simpa using halloc, hcopy⟩
        (h descs)

/-- `rocket_ioctl_submit` reports what it did exactly when no job fails without a sign. -/
theorem submit_reports_iff (h : Reaches abi s) (env : SubmitAllEnv) (f : ℕ) (args : SubmitArgs) :
    ReportsTruth abi env f args s ↔ ∀ descs, Accepts abi env args descs →
      (∃ i d, descs[i]? = some d ∧ Dies abi (env.submit i) (s.files f).handles d) ∨
        ∀ i d, descs[i]? = some d → Pushes abi (env.submit i) (s.files f).handles d := by
  by_cases hacc : ∃ descs, Accepts abi env args descs
  · obtain ⟨descs, hacc⟩ := hacc
    have hcopy := hacc.2.2.2.2
    have hall : (∀ descs, Accepts abi env args descs →
        (∃ i d, descs[i]? = some d ∧ Dies abi (env.submit i) (s.files f).handles d) ∨
          ∀ i d, descs[i]? = some d → Pushes abi (env.submit i) (s.files f).handles d) ↔
        (∃ i d, descs[i]? = some d ∧ Dies abi (env.submit i) (s.files f).handles d) ∨
          ∀ i d, descs[i]? = some d → Pushes abi (env.submit i) (s.files f).handles d := by
      refine ⟨fun h => h descs hacc, fun h descs' hacc' => ?_⟩
      obtain rfl : descs = descs' := Option.some.inj (hcopy.symm.trans hacc'.2.2.2.2)
      exact h
    rw [hall, ReportsTruth, rocketIoctlSubmit_accepts hacc, map_of_mapM_eq_some hcopy]
    simp only [dies_iff, pushes_iff]
    by_cases hdie : ∃ i d, descs[i]? = some d ∧
        ¬ ((env.submit i).ending abi (s.files f).handles d).Returns
    · refine iff_of_true (fun t hrun => ?_) (.inl hdie)
      have hno := submitFrom_dies h.wf env.submit 0 descs (by simpa using hdie)
      exact absurd (congrArg Prod.fst hrun) hno
    · rw [or_iff_right hdie]
      have hret : ∀ i d, descs[i]? = some d →
          ((env.submit (0 + i)).ending abi (s.files f).handles d).Returns := by
        intro i d hd
        by_contra hn
        exact hdie ⟨i, d, hd, by simpa using hn⟩
      obtain ⟨t, ids, hrun, hpushed, hdescs, -, -⟩ :=
        submitFrom_returns h.wf env.submit 0 descs hret
      have hiff := pushedDescs_eq_iff abi env.submit (s.files f).handles 0 descs
      simp only [Nat.zero_add] at hiff
      rw [← hiff, ← hdescs]
      constructor
      · intro hr
        obtain ⟨ids', hpushed', hmap⟩ := hr t hrun
        obtain rfl := List.append_cancel_left (hpushed.symm.trans hpushed')
        apply List.map_injective_iff.mpr fun _ _ => Option.some.inj
        rw [List.map_map]
        exact hmap
      · intro heq t' hrun'
        obtain rfl : t = t' := congrArg Prod.snd (hrun.symm.trans hrun')
        refine ⟨ids, hpushed, ?_⟩
        rw [← heq, List.map_map]
        rfl
  · refine iff_of_true (fun t hrun => ?_) fun descs hd => absurd ⟨descs, hd⟩ hacc
    obtain ⟨hc, rfl⟩ := rocketIoctlSubmit_refuses (fun descs hd => hacc ⟨descs, hd⟩) hrun
    exact ⟨[], by simp, by simp [hc]⟩

/-- A call with `n` jobs at address 0x1000, each of which the copy finds to be `desc`. -/
def SubmitAllEnv.copies (desc : JobDesc) : SubmitAllEnv :=
  ⟨true, fun _ _ => some desc, fun _ => .smooth⟩

def SubmitArgs.ofCount (n : ℕ) : SubmitArgs := ⟨0x1000, BitVec.ofNat 32 n, 40, 0⟩

theorem submit_reports_twoJobs :
    ReportsTruth ⟨16, 40⟩ (.copies .oneTask) 0 (.ofCount 2) .opened := by
  refine (submit_reports_iff (.opened _) (.copies .oneTask) 0 (.ofCount 2)).mpr fun descs hd => ?_
  obtain rfl : [.oneTask, .oneTask] = descs := Option.some.inj hd.2.2.2.2
  refine .inr fun i d hi => ?_
  obtain rfl : d = .oneTask := by
    have := List.mem_of_getElem? hi
    simpa using this
  exact ⟨by decide, rfl, ⟨rfl, ⟨by decide, rfl, [⟨0, 1⟩], rfl⟩, rfl, rfl, .inl rfl⟩, rfl⟩

/-- A job without tasks is refused, and the call returns 0. -/
theorem not_submit_reports :
    ∃ s, Reaches ⟨16, 40⟩ s ∧ (s.files 0).priv ∧
      ¬ ∀ env f args, ReportsTruth ⟨16, 40⟩ env f args s := by
  refine ⟨.opened, .opened _, rfl, fun h => ?_⟩
  obtain ⟨ids, hpushed, hmap⟩ :=
    h (.copies { JobDesc.oneTask with taskCount := 0 }) 0 (.ofCount 1) _ rfl
  obtain rfl : [] = ids := hpushed
  cases hmap

end RocketNpu.Drm
