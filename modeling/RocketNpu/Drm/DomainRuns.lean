import Mathlib.Data.List.Nodup
import RocketNpu.Drm.DomainCount

namespace RocketNpu.Drm
open Runs Refcount Calls Call

variable {abi : Abi} {s t : State} {f j b : ℕ} {desc : JobDesc}

/-- What a call needs so that it puts the domain as often as it took it: `create_bo` does not
fail once there is a handle, and `submit_job` does not fail between the job and its
domain. -/
def Op.Balanced (abi : Abi) (s : State) : Op → Prop
  | .createBo env _ size => env.shmem = none → (∃ k, env.handle = .ok k) →
      env.sgt = none ∧ env.map = none ∧ pageAlign size.toNat ≤ intMax
  | .submitJob env f desc => desc.taskCount = 0 ∨ env.kzalloc = false ∨
      env.schedInit = none ∧ Copies abi env desc ∧
        Finds env.inBos (s.files f).handles desc.inBoHandles desc.inBoHandleCount ∧
        Finds env.outBos (s.files f).handles desc.outBoHandles desc.outBoHandleCount
  | _ => True

theorem CreateEnv.ending_done {env : CreateEnv} {size : BitVec 32} {k : ℕ}
    (h : env.shmem = none → (∃ k, env.handle = .ok k) →
      env.sgt = none ∧ env.map = none ∧ pageAlign size.toNat ≤ intMax)
    (hk : (env.ending size).entered = some k) : env.ending size = .done k := by
  have hclean := env.ending_clean_iff size
  unfold ending at hk hclean ⊢
  cases hs : env.shmem with
  | some e => simp [hs, CreateEnding.entered] at hk
  | none =>
  cases hh : env.handle with
  | error e => simp [hs, hh, CreateEnding.entered] at hk
  | ok k' =>
  obtain ⟨hg, hm, hl⟩ := h hs ⟨k', hh⟩
  simp only [hs, hh, hg, hm, hl, if_true, CreateEnding.entered] at hk ⊢
  rw [Option.some.inj hk]

theorem SubmitEnv.ending_ne_unprepared {env : SubmitEnv} {table : List (ℕ × ℕ)}
    (h : desc.taskCount = 0 ∨ env.kzalloc = false ∨ env.schedInit = none ∧ Copies abi env desc ∧
      Finds env.inBos table desc.inBoHandles desc.inBoHandleCount ∧
      Finds env.outBos table desc.outBoHandles desc.outBoHandleCount) (job : Job) :
    env.ending abi table desc ≠ .unprepared job := by
  by_cases hc : desc.taskCount = 0
  · simp [ending, hc]
  rcases h.resolve_left hc with hz | ⟨hs, hprep⟩
  · rw [ending, if_neg hc, hz]
    simp
  have hret := (@prepared_none_iff abi env table desc (startJob desc) hc).mpr hprep
  unfold ending
  rw [if_neg hc, hs]
  generalize prepared abi env table desc (startJob desc) = prep at hret ⊢
  obtain ⟨job', ret⟩ := prep
  obtain rfl : ret = none := hret
  dsimp only
  split_ifs
  · simp
  · simp
  · split <;> simp

namespace Counts

theorem jobFreed (h : Counts s) (hw : Wf s) (hj : (s.jobs j).stage = .taken)
    (hd : (s.jobs j).domain = some f) : Counts (s.jobFreed f j) := by
  have hp : (s.jobs j).stage.Pending := by simp [hj, Stage.Pending]
  have hlt := hw.lt_nextJob hp
  refine (h.setJob rfl rfl).jobCleaned (hw.setJob id (.inr hlt)) ⟨hlt, ?_, ?_⟩
  · simpa using hd
  · simpa using (hw.ready j hp).frees

theorem afterSubmit (h : Counts s) (hw : Wf s) (hp : (s.files f).priv) {c : SubmitEnding}
    (hc : c.Fits (s.files f).handles desc) (hu : ∀ job, c ≠ .unprepared job) :
    Counts (s.afterSubmit f c) := by
  cases c with
  | noTasks => exact h
  | noJob => exact h
  | unprepared job => exact absurd rfl (hu job)
  | noArray job => exact h.acquired hw hp hc.1.frees hc.2.2
  | notPushed job e =>
    obtain ⟨hkept, -, hmem⟩ := hc
    have hstage : job.stage = .preparing := hkept.stage
    have hwf : Wf (s.acquired f job) := hw.acquired hstage fun b hb => ⟨f, hmem b hb⟩
    have hfrees : job.frees = 0 := hkept.frees
    have hcounts : Counts (s.acquired f job) := h.acquired hw hp hfrees hmem
    refine (hcounts.setJob rfl rfl).jobCleaned (hwf.setJob ?_ (.inl rfl))
      ⟨Nat.lt_succ_self _, ?_, ?_⟩
    · rw [State.acquired_job]
      simp [hstage, Stage.Pending]
    · simp [State.acquired_job]
    · simp [State.acquired_job, hfrees]
  | pushed job =>
    have hcounts : Counts (s.acquired f job) := h.acquired hw hp hc.1.frees hc.2.2
    rw [State.afterSubmit]
    refine Counts.setFile (hcounts.setJob ?_ ?_) ?_ <;> rfl

/-- A balanced call keeps the domains in step with their holders. -/
theorem step (h : Counts s) (hw : Wf s) {op : Op} (ha : op.Admissible s)
    (hb : op.Balanced abi s) : Counts (op.run abi s) := by
  cases op with
  | «open» env =>
    rcases rocketOpen_cases env s with he | he | he <;> rw [Op.run, he]
    · exact h
    · exact h.newFile
    · exact h.newFile.privDropped (by simp)
  | createBo env f size =>
    rw [Op.run, rocketIoctlCreateBo_eq]
    exact h.afterCreate ha.1 env size fun k hk => CreateEnv.ending_done hb hk
  | submitJob env f desc =>
    rw [Op.run, rocketIoctlSubmitJob_eq hw]
    exact h.afterSubmit hw ha (env.ending_fits abi _ desc) (SubmitEnv.ending_ne_unprepared hb)
  | dropHandle f k =>
    rcases hw.dropHandle_cases f k with he | ⟨b, hm, he⟩ <;> rw [Op.run, he]
    · exact h
    · refine Counts.boPut (h.setFile ?_) (fun hn => ?_) _
      · rfl
      · exact (hw.sound b).count_eq_zero.mpr (hw.unborn b hn)
  | takeJob f j =>
    have hset : Counts (s.setJob j ({ · with stage := .taken })) := h.setJob rfl rfl
    exact hset
  | freeJob j =>
    have htaken : (s.jobs j).stage = .taken := ha
    obtain ⟨f, hf⟩ := (hw.ready j (by simp [htaken, Stage.Pending])).domain
    rw [Op.run, (hw.freeJob ha hf).1]
    exact h.jobFreed hw ha hf
  | postclose f => exact h.privDropped ha.1

end Counts

namespace State

/-- The BOs that took the domain of file `f` and are not freed. -/
def liveBos (s : State) (f : ℕ) : List ℕ :=
  (List.range s.nextBo).filter fun b => (s.bos b).file = f ∧ (s.bos b).frees = 0

/-- The jobs that took it and are not cleaned up. -/
def liveJobs (s : State) (f : ℕ) : List ℕ :=
  (List.range s.nextJob).filter fun j => (s.jobs j).domain = some f ∧ (s.jobs j).frees = 0

/-- How many should hold the domain of file `f`. -/
def holdersOf (s : State) (f : ℕ) : ℕ :=
  (if (s.files f).priv then 1 else 0) + (s.liveBos f).length + (s.liveJobs f).length

end State

/-- Each domain counts its holders and is destroyed when the last one is gone; nobody puts a
reference he does not have. -/
structure DomainCounted (s : State) : Prop where
  count : ∀ f < s.nextFile, (s.domains f).kref.count = s.holdersOf f
  destroyed : ∀ f < s.nextFile, (s.domains f).freed ↔ s.holdersOf f = 0
  matched : ∀ w, .putWithout w ∉ s.faults

theorem Counts.count_eq (h : Counts s) (f : ℕ) :
    (s.domains f).kref.count = s.holdersOf f := by
  let holders : List DomainHolder :=
    (if (s.files f).priv then [.file] else []) ++
      ((s.liveBos f).map .bo ++ (s.liveJobs f).map .job)
  have hnodup : holders.Nodup := by
    have hbos : ((s.liveBos f).map DomainHolder.bo).Nodup :=
      List.Nodup.map (fun _ _ => DomainHolder.bo.inj) (List.nodup_range.filter _)
    have hjobs : ((s.liveJobs f).map DomainHolder.job).Nodup :=
      List.Nodup.map (fun _ _ => DomainHolder.job.inj) (List.nodup_range.filter _)
    refine List.nodup_append'.mpr ⟨?_, List.nodup_append'.mpr ⟨hbos, hjobs, ?_⟩, ?_⟩
    · split <;> simp
    · simp [List.Disjoint]
    · split <;> simp [List.Disjoint]
  have hmem : ∀ w, w ∈ (s.domains f).kref.holders ↔ w ∈ holders := by
    intro w
    rw [h.mem]
    cases w with
    | file => by_cases hp : (s.files f).priv <;> simp [holders, State.Holder, hp]
    | bo b => by_cases hp : (s.files f).priv <;> simp [holders, State.Holder, State.liveBos, hp]
    | job j => by_cases hp : (s.files f).priv <;> simp [holders, State.Holder, State.liveJobs, hp]
  rw [(h.sound f).count_eq (h.nodup f) hnodup hmem]
  simp only [holders, State.holdersOf, List.length_append, List.length_map, Nat.add_assoc]
  split <;> rfl

theorem Counts.counted (h : Counts s) : DomainCounted s where
  count := fun f _ => h.count_eq f
  destroyed := fun f hf => by
    rw [h.freed f hf, ← (h.sound f).count_eq_zero, h.count_eq]
  matched := h.faults

/-- After every step of a run of balanced calls. -/
theorem domain_counted
    (h : Reachable (· = State.init) (restrict (Step abi) fun s op => op.Balanced abi s) s) :
    DomainCounted s := by
  suffices hi : Wf s ∧ Counts s from hi.2.counted
  apply h.invariant (I := fun s => Wf s ∧ Counts s)
  · rintro s rfl
    exact ⟨.init, .init⟩
  · rintro s op t ⟨hw, hc⟩ ⟨⟨ha, rfl⟩, hb⟩
    exact ⟨hw.step ha, hc.step hw ha hb⟩

theorem domain_counted_shared : DomainCounted .shared :=
  @domain_counted ⟨16, 40⟩ _
    (.step (e := .useBo) (.step (e := .makeBo) (.step (e := .open .smooth) (.start rfl)
      ⟨⟨trivial, rfl⟩, trivial⟩)
      ⟨⟨⟨rfl, fun _ _ => rfl⟩, rfl⟩, fun _ _ => ⟨rfl, rfl, by decide⟩⟩)
      ⟨⟨rfl, rfl⟩, .inr (.inr ⟨rfl, ⟨by decide, rfl, [⟨0, 1⟩], rfl⟩, rfl, rfl⟩)⟩)

/-- A BO whose pages cannot be had is freed without a put of the domain. -/
theorem not_domain_counted : ¬ ∀ s, Reaches ⟨16, 40⟩ s → DomainCounted s := by
  intro h
  have hs := (Reaches.opened ⟨16, 40⟩).run
    (.createBo ⟨none, .ok 1, some .enomem, .ok 0, none, 0⟩ 0 4096) ⟨rfl, fun _ _ => rfl⟩
  have hcount : 2 = 1 := (h _ hs).count 0 (by decide)
  cases hcount

end RocketNpu.Drm
