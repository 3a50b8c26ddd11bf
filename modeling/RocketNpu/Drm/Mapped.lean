import RocketNpu.Drm.AddressRuns
import RocketNpu.Drm.DomainRuns

namespace RocketNpu.Drm
open Runs Refcount Calls Call

variable {abi : Abi} {g : ℕ → Geometry} {s t : State} {f j b : ℕ} {w : BoHolder}
  {env : CreateEnv} {size : BitVec 32} {desc : JobDesc}

/-- What is asked of a call for the address spaces: `drm_mm` and the IOMMU keep their promises,
and a `create_bo` that makes an object finds a handle and room for it. -/
def Op.Spaced (g : ℕ → Geometry) (s : State) : Op → Prop
  | .createBo env f size => (RoomOp.createBo env size).Admissible (g f) f ⟨s, fun _ => none⟩ ∧
      (env.shmem = none → (∃ k, env.handle = .ok k) ∧ env.insert.isOk)
  | _ => True

/-- Every BO that somebody holds has its node and its own pages in the domain of its file. -/
structure Laid (g : ℕ → Geometry) (s : State) : Prop where
  owns : ∀ b, 0 < (s.bos b).kref.count →
    Owns (g (s.bos b).file) (s.bos b).file s b (s.bos b).start (s.bos b).size
  disjoint : ∀ b b', 0 < (s.bos b).kref.count → 0 < (s.bos b').kref.count → b' ≠ b →
    (s.bos b').file = (s.bos b).file → ∀ p, InPages (s.bos b).start (s.bos b).size p →
      ¬ InPages (s.bos b').start (s.bos b').size p

/-- A BO of `t` that was there in `s`, and lost nothing on the way. -/
structure Stays (s t : State) (b : ℕ) : Prop where
  held : 0 < (s.bos b).kref.count
  file : (t.bos b).file = (s.bos b).file
  start : (t.bos b).start = (s.bos b).start
  size : (t.bos b).size = (s.bos b).size
  node : b ∈ (s.files (s.bos b).file).nodes → b ∈ (t.files (s.bos b).file).nodes
  mapped : ∀ p, InPages (s.bos b).start (s.bos b).size p →
    (s.domains (s.bos b).file).mapped p = true → (t.domains (s.bos b).file).mapped p = true

theorem Stays.owns (h : Stays s t b) (hs : Laid g s) :
    Owns (g (t.bos b).file) (t.bos b).file t b (t.bos b).start (t.bos b).size := by
  rw [h.file, h.start, h.size]
  exact (hs.owns b h.held).congr h.file h.start h.size h.node h.mapped

namespace Laid

theorem init : Laid g .init where
  owns := fun _ h => absurd h (Nat.lt_irrefl 0)
  disjoint := fun _ _ h => absurd h (Nat.lt_irrefl 0)

theorem congr (h : Laid g s) (hs : ∀ b, 0 < (t.bos b).kref.count → Stays s t b) : Laid g t where
  owns := fun b hb => (hs b hb).owns h
  disjoint := fun b b' hb hb' hne hfile p => by
    have hstay := hs b hb
    have hstay' := hs b' hb'
    rw [hstay.file, hstay'.file] at hfile
    rw [hstay.start, hstay.size, hstay'.start, hstay'.size]
    exact h.disjoint b b' hstay.held hstay'.held hne hfile p

/-- Changes of domains and files that leave mappings and nodes alone. -/
theorem of_bos (h : Laid g s) (hbos : t.bos = s.bos)
    (hnodes : ∀ f, (t.files f).nodes = (s.files f).nodes)
    (hmapped : ∀ d, (t.domains d).mapped = (s.domains d).mapped) : Laid g t := by
  refine h.congr fun b hb => ?_
  rw [hbos] at hb
  refine ⟨hb, by rw [hbos], by rw [hbos], by rw [hbos], fun hn => ?_, fun p _ hp => ?_⟩
  · rwa [hnodes]
  · rwa [hmapped]

/-- The free of a BO takes down its own pages, which no other BO has. -/
theorem boPut (h : Laid g s) (w : BoHolder) (b : ℕ) : Laid g (s.boPut w b) := by
  refine h.congr fun c hc => ?_
  have hheld : 0 < (s.bos c).kref.count ∧ ((s.bos b).kref.count = 1 → c ≠ b) := by
    by_cases he : c = b
    · subst he
      rw [State.boPut_bo] at hc
      change 0 < (s.bos c).kref.count - 1 at hc
      exact ⟨by omega, by omega⟩
    · rw [State.boPut_ne he] at hc
      exact ⟨hc, fun _ => he⟩
  obtain ⟨hpos, hne⟩ := hheld
  refine ⟨hpos, State.boPut_file c, ?_, ?_, fun hn => ?_, fun p hp hm => ?_⟩
  · by_cases he : c = b
    · subst he
      rw [State.boPut_bo]
    · rw [State.boPut_ne he]
  · by_cases he : c = b
    · subst he
      rw [State.boPut_bo]
    · rw [State.boPut_ne he]
  · rw [State.boPut_files]
    dsimp only
    split_ifs with h1
    · exact (List.mem_erase_of_ne (hne h1.1)).mpr hn
    · exact hn
  · rw [State.boPut_mapped]
    split_ifs with h1
    · obtain ⟨hone, hfile⟩ := h1
      have hout := h.disjoint c b hpos (by omega) (hne hone).symm hfile.symm p hp
      rwa [IommuDomain.unmap_outside hout]
    · exact hm

theorem setJob (h : Laid g s) (j : ℕ) (g' : Job → Job) : Laid g (s.setJob j g') :=
  h.of_bos rfl (fun _ => rfl) fun _ => rfl

theorem domainGet (h : Laid g s) (w : DomainHolder) (f : ℕ) : Laid g (s.domainGet w f) := by
  refine h.of_bos rfl (fun _ => rfl) fun d => ?_
  by_cases hd : d = f <;> simp [hd]

theorem domainPut (h : Laid g s) (w : DomainHolder) (f : ℕ) : Laid g (s.domainPut w f) := by
  refine h.of_bos rfl (fun _ => rfl) fun d => ?_
  by_cases hd : d = f <;> simp [hd]

theorem jobCleaned (h : Laid g s) (f j : ℕ) : Laid g (s.jobCleaned f j) := by
  have hput := State.bosPut_induct (P := Laid g) j (fun _ b h => h.boPut _ b)
    (fun _ _ h => h.setJob _ _) ((s.jobs j).ins ++ (s.jobs j).outs) _ (h.domainPut (.job j) f)
  exact hput.setJob j _

/-- References for a job on BOs that have a handle. -/
theorem withJob (h : Laid g s) (hw : Wf s) (job : Job) {bs : List ℕ}
    (hbs : ∀ b ∈ bs, ∃ k, (k, b) ∈ (s.files f).handles) : Laid g (s.withJob job bs) := by
  refine h.congr fun b hb => ⟨?_, rfl, rfl, rfl, id, fun _ _ => id⟩
  by_cases hm : b ∈ bs
  · obtain ⟨k, hk⟩ := hbs b hm
    exact (hw.sound b).pos_of_mem (hw.handle_mem hk)
  · simpa [Ref.getMany, List.count_eq_zero_of_not_mem hm] using hb

theorem afterSubmit (h : Laid g s) (hw : Wf s) {c : SubmitEnding}
    (hc : c.Fits (s.files f).handles desc) : Laid g (s.afterSubmit f c) := by
  have hacquired : ∀ job : Job, (∀ b ∈ job.taken, ∃ k, (k, b) ∈ (s.files f).handles) →
      Laid g (s.acquired f job) := fun job hmem =>
    (h.withJob hw { job with domain := some f } hmem).domainGet _ _
  cases c with
  | noTasks => exact h
  | noJob => exact h
  | unprepared job =>
    exact (h.withJob hw job hc.2.2.2).of_bos rfl (fun _ => rfl) fun _ => rfl
  | noArray job => exact hacquired job hc.2.2
  | notPushed job e => exact Laid.jobCleaned ((hacquired job hc.2.2).setJob _ _) f s.nextJob
  | pushed job =>
    refine (hacquired job hc.2.2).of_bos rfl (fun f' => ?_) fun _ => rfl
    by_cases hf : f' = f <;> simp [State.afterSubmit, hf]

theorem newFile (h : Laid g s) (hw : Wf s) (hc : Counts s) : Laid g s.newFile := by
  refine h.congr fun b hb => ?_
  -- the BOs that are held are those of files opened before
  have hne : (s.bos b).file ≠ s.nextFile := by
    intro he
    have hlt : b < s.nextBo := by
      by_contra hn
      have hzero := (hw.sound b).count_eq_zero.mpr (hw.unborn b (Nat.le_of_not_lt hn))
      exact absurd hzero (Nat.ne_of_gt hb)
    have hm := (hc.mem (s.bos b).file (.bo b)).mpr ⟨hlt, rfl, (hc.frees b hlt).mpr hb⟩
    rw [hc.unopened _ (Nat.le_of_eq he.symm)] at hm
    exact absurd hm List.not_mem_nil
  refine ⟨hb, rfl, rfl, rfl, fun hn => ?_, fun p _ hm => ?_⟩
  · simpa [hne] using hn
  · simpa [hne] using hm

/-- The table of mappings and the nodes of the other files. -/
theorem afterCreate_other (env : CreateEnv) (f : ℕ) (size : BitVec 32) (k : ℕ) (s : State)
    {d : ℕ} (hd : d ≠ f) :
    ((s.afterCreate env f size (.done k)).files d).nodes = (s.files d).nodes ∧
      ((s.afterCreate env f size (.done k)).domains d).mapped = (s.domains d).mapped := by
  have hhandled : ((s.boHandled f size k).files d).nodes = (s.files d).nodes ∧
      ((s.boHandled f size k).domains d).mapped = (s.domains d).mapped := by
    simp [State.boHandled, State.boPut_files, State.boPut_mapped, hd]
  have hfile := (State.boHandled_new f size k s).1
  simp only [State.afterCreate, State.boMapped, State.boInserted, State.drmMmInsertNode]
  cases env.insert with
  | ok start => simpa [hd, hfile] using hhandled
  | error e => simpa [hd] using hhandled

theorem stays_createBo (env : CreateEnv) (f : ℕ) (size : BitVec 32) (k : ℕ) (s : State)
    (hne : b ≠ s.nextBo) (hb : 0 < ((s.afterCreate env f size (.done k)).bos b).kref.count) :
    Stays s (s.afterCreate env f size (.done k)) b := by
  have hbo : (s.afterCreate env f size (.done k)).bos b = s.bos b := State.afterCreate_ne hne
  rw [hbo] at hb
  refine ⟨hb, by rw [hbo], by rw [hbo], by rw [hbo], fun hn => ?_, fun p _ hm => ?_⟩
  · by_cases hf : (s.bos b).file = f
    · rw [hf] at hn ⊢
      exact (State.afterCreate_nodes hne).mpr hn
    · rwa [(afterCreate_other env f size k s hf).1]
  · by_cases hf : (s.bos b).file = f
    · rw [hf] at hm ⊢
      exact State.afterCreate_mapped hm (by simp)
    · rwa [(afterCreate_other env f size k s hf).2]

/-- The new BO gets pages that were free, in a node of its own. -/
theorem createBo_done (h : Laid g s) (hg : (g f).Aligned) {k : ℕ}
    (hadm : (RoomOp.createBo env size).Admissible (g f) f ⟨s, fun _ => none⟩)
    (hmap : env.map = none) (hins : env.insert.isOk) :
    Laid g (s.afterCreate env f size (.done k)) := by
  obtain ⟨hfile, hstart, hsize, -⟩ := State.afterCreate_done env f size k s
  have hfree : ∀ b, 0 < (s.bos b).kref.count → (s.bos b).file = f →
      ∀ p, InPages (s.bos b).start (s.bos b).size p →
        ¬ InPages env.address (pageAlign size.toNat) p := by
    rintro b hb hbf p hp ⟨hlo, hhi⟩
    have hm := (h.owns b hb).mapped p hp
    rw [hbf, hadm.2 hmap p hhi hlo] at hm
    cases hm
  have hstays := fun b => stays_createBo (b := b) env f size k s
  constructor
  · intro b hb
    by_cases hne : b = s.nextBo
    · subst hne
      rw [hfile, hstart, hsize]
      exact Owns.new hg hadm hins
    · exact (hstays b hne hb).owns h
  · intro b b' hb hb' hbb hff p
    by_cases hne : b = s.nextBo <;> by_cases hne' : b' = s.nextBo
    · exact absurd (hne'.trans hne.symm) hbb
    · -- the new BO against an old one, and the other way round
      subst hne
      have hold := hstays b' hne' hb'
      rw [hfile, hold.file] at hff
      rw [hstart, hsize, hold.start, hold.size]
      exact fun hp hp' => hfree b' hold.held hff p hp' hp
    · subst hne'
      have hold := hstays b hne hb
      rw [hfile, hold.file] at hff
      rw [hstart, hsize, hold.start, hold.size]
      exact hfree b hold.held hff.symm p
    · have hold := hstays b hne hb
      have hold' := hstays b' hne' hb'
      rw [hold.file, hold'.file] at hff
      rw [hold.start, hold.size, hold'.start, hold'.size]
      exact h.disjoint b b' hold.held hold'.held hbb hff p

theorem createBo (h : Laid g s) (hg : ∀ f, (g f).Aligned)
    (hs : (Op.createBo env f size).Spaced g s) (hb : (Op.createBo env f size).Balanced abi s) :
    Laid g (s.afterCreate env f size (env.ending size)) := by
  cases hshmem : env.shmem with
  | some e =>
    rw [CreateEnv.ending, hshmem]
    exact h
  | none =>
    obtain ⟨⟨k, hk⟩, hins⟩ := hs.2 hshmem
    obtain ⟨hsgt, hmap, hlen⟩ := hb hshmem ⟨k, hk⟩
    have hdone : env.ending size = .done k := by
      simp [CreateEnv.ending, hshmem, hk, hsgt, hmap, hlen]
    rw [hdone]
    exact h.createBo_done (hg f) hs.1 hmap hins

theorem step (h : Laid g s) (hw : Wf s) (hc : Counts s) (hg : ∀ f, (g f).Aligned) {op : Op}
    (ha : op.Admissible s) (hs : op.Spaced g s) (hb : op.Balanced abi s) :
    Laid g (op.run abi s) := by
  have hdropped : ∀ t : State, Laid g t → ∀ f, Laid g (t.privDropped f) := by
    intro t ht f
    have hdown : Laid g (t.drmMmTakedown f) := ht.of_bos rfl (fun _ => rfl) fun _ => rfl
    refine (hdown.domainPut .file f).of_bos rfl (fun f' => ?_) fun _ => rfl
    by_cases hf : f' = f <;> simp [hf]
  cases op with
  | «open» env =>
    rcases rocketOpen_cases env s with he | he | he <;> rw [Op.run, he]
    · exact h
    · exact h.newFile hw hc
    · exact hdropped _ (h.newFile hw hc) _
  | createBo env f size =>
    rw [Op.run, rocketIoctlCreateBo_eq]
    exact h.createBo hg hs hb
  | submitJob env f desc =>
    rw [Op.run, rocketIoctlSubmitJob_eq hw]
    exact h.afterSubmit hw (env.ending_fits abi _ desc)
  | dropHandle f k =>
    rcases hw.dropHandle_cases f k with he | ⟨b, -, he⟩ <;> rw [Op.run, he]
    · exact h
    · have hset : Laid g (s.setFile f fun file =>
          { file with handles := file.handles.erase (k, b) }) := by
        refine h.of_bos rfl (fun f' => ?_) fun _ => rfl
        by_cases hf : f' = f <;> simp [hf]
      exact hset.boPut _ b
  | takeJob f j => exact h.setJob j ({ · with stage := .taken })
  | freeJob j =>
    have htaken : (s.jobs j).stage = .taken := ha
    obtain ⟨f, hf⟩ := (hw.ready j (by simp [htaken, Stage.Pending])).domain
    rw [Op.run, (hw.freeJob ha hf).1]
    exact (h.setJob j _).jobCleaned f j
  | postclose f => exact hdropped s h f

end Laid

/-- The scheduler's jobs took BOs of the file whose domain they have. -/
def OwnBos (s : State) : Prop :=
  ∀ j, (s.jobs j).stage.Pending → ∀ b ∈ (s.jobs j).taken, (s.jobs j).domain = some (s.bos b).file

/-- A job that the scheduler has holds what it took. -/
theorem Wf.took (h : Wf s) (hj : (s.jobs j).stage.Pending) (hb : b ∈ (s.jobs j).taken) :
    .job j ∈ (s.bos b).kref.holders := by
  rw [← List.count_pos_iff] at hb ⊢
  exact Nat.lt_of_lt_of_le hb (h.held j hj b)

namespace OwnBos

theorem congr (h : OwnBos s) (hfile : ∀ b, (t.bos b).file = (s.bos b).file)
    (hjobs : ∀ j, (t.jobs j).stage.Pending → (s.jobs j).stage.Pending ∧
      (t.jobs j).taken = (s.jobs j).taken ∧ (t.jobs j).domain = (s.jobs j).domain) :
    OwnBos t := by
  intro j hj b hb
  obtain ⟨hp, htaken, hdomain⟩ := hjobs j hj
  rw [hdomain, hfile]
  exact h j hp b (htaken ▸ hb)

theorem jobCleaned_file (f j b : ℕ) (s : State) :
    ((s.jobCleaned f j).bos b).file = (s.bos b).file :=
  State.bosPut_induct (P := fun t => (t.bos b).file = (s.bos b).file) j
    (fun t b' h => by rw [State.boPut_file, h]) (fun t b' h => h)
    ((s.jobs j).ins ++ (s.jobs j).outs) (s.domainPut (.job j) f) rfl

theorem afterSubmit_file (f : ℕ) (s : State) (c : SubmitEnding) (b : ℕ) :
    ((s.afterSubmit f c).bos b).file = (s.bos b).file := by
  cases c with
  | notPushed job e => exact jobCleaned_file f s.nextJob b _
  | noTasks => rfl
  | noJob => rfl
  | unprepared job => rfl
  | noArray job => rfl
  | pushed job => rfl

theorem afterSubmit (h : OwnBos s) (hw : Wf s) {c : SubmitEnding}
    (hc : c.Fits (s.files f).handles desc) : OwnBos (s.afterSubmit f c) := by
  intro j hj b hb
  rw [afterSubmit_file]
  by_cases hne : j = s.nextJob
  · subst hne
    have hentry : ∀ job : Job, (∀ b ∈ job.taken, ∃ k, (k, b) ∈ (s.files f).handles) →
        ∀ b ∈ job.taken, some f = some (s.bos b).file := by
      intro job hmem b hb
      obtain ⟨k, hk⟩ := hmem b hb
      rw [hw.entry f k b hk]
    have hfuture := hw.future s.nextJob (Nat.le_refl _)
    cases c with
    | pushed job =>
      simp only [State.afterSubmit, State.setFile_jobs, State.setJob_jobs, Function.update_self,
        State.acquired_job] at hb ⊢
      exact hentry job hc.2.2 b hb
    | noTasks =>
      rw [State.afterSubmit, hfuture] at hj
      exact absurd hj id
    | noJob =>
      rw [State.afterSubmit, hfuture] at hj
      exact absurd hj id
    | unprepared job =>
      simp [State.afterSubmit, hc.1, Stage.Pending] at hj
    | noArray job =>
      have hstage : job.stage = .preparing := hc.1.stage
      simp [State.afterSubmit, hstage, Stage.Pending] at hj
    | notPushed job e =>
      have hstage : job.stage = .preparing := hc.1.stage
      simp [State.afterSubmit, State.jobCleaned_jobs, hstage, Stage.Pending] at hj
  · rw [State.afterSubmit_jobs_ne f s c hne] at hj hb ⊢
    exact h j hj b hb

theorem step (h : OwnBos s) (hw : Wf s) {op : Op} (ha : op.Admissible s) :
    OwnBos (op.run abi s) := by
  cases op with
  | «open» env =>
    rcases rocketOpen_cases env s with he | he | he <;> rw [Op.run, he] <;> exact h
  | createBo env f size =>
    rw [Op.run, rocketIoctlCreateBo_eq]
    have hjobs := (State.afterCreate_jobs env f size s (env.ending size)).1
    intro j hj b hb
    dsimp only at hj hb ⊢
    rw [hjobs] at hj hb ⊢
    -- a BO that a job took is not the new one
    rw [State.afterCreate_ne (Nat.ne_of_lt (hw.lt_nextBo (hw.took hj hb)))]
    exact h j hj b hb
  | submitJob env f desc =>
    rw [Op.run, rocketIoctlSubmitJob_eq hw]
    exact h.afterSubmit hw (env.ending_fits abi _ desc)
  | dropHandle f k =>
    rcases hw.dropHandle_cases f k with he | ⟨b, -, he⟩ <;> rw [Op.run, he]
    · exact h
    · refine h.congr (fun b' => by rw [State.boPut_file]; rfl) fun j hj => ?_
      rw [State.boPut_jobs] at hj ⊢
      exact ⟨hj, rfl, rfl⟩
  | takeJob f j =>
    have hqueued : (s.jobs j).stage = .queued := State.mem_queue (List.mem_of_mem_head? ha)
    refine h.congr (fun _ => rfl) fun j' hj => ?_
    by_cases he : j' = j
    · subst he
      simp [Op.run, Drm.takeJob, hqueued, Stage.Pending]
    · simp only [Op.run, Drm.takeJob, modify_apply, State.setJob_jobs,
        Function.update_of_ne he] at hj ⊢
      exact ⟨hj, trivial, trivial⟩
  | freeJob j =>
    have htaken : (s.jobs j).stage = .taken := ha
    obtain ⟨f, hf⟩ := (hw.ready j (by simp [htaken, Stage.Pending])).domain
    rw [Op.run, (hw.freeJob ha hf).1]
    refine h.congr (fun b => by rw [State.jobFreed, jobCleaned_file]; rfl) fun j' hj => ?_
    by_cases he : j' = j
    · subst he
      simp [State.jobFreed, State.jobCleaned_jobs, Stage.Pending] at hj
    · simp only [State.jobFreed, State.jobCleaned_jobs, State.setJob_jobs,
        Function.update_of_ne he] at hj ⊢
      exact ⟨hj, trivial, trivial⟩
  | postclose f => exact h

end OwnBos

end RocketNpu.Drm
