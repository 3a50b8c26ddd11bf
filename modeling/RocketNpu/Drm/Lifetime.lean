import RocketNpu.Drm.Reach

namespace RocketNpu.Drm
open Runs Refcount Calls Call

variable {abi : Abi} {s t : State} {f j k b : ℕ} {w : BoHolder} {bs : List ℕ} {desc : JobDesc}

/-- BOs do not outlive their file: who holds one finds its `rocket_file_priv`, and a node in
an `mm` is that of a BO somebody holds. -/
structure Outlived (s : State) : Prop where
  closed : ∀ b, (s.files (s.bos b).file).priv = false → (s.bos b).kref.holders = []
  node : ∀ f, ∀ b ∈ (s.files f).nodes, (s.bos b).file = f ∧ (s.bos b).kref.holders ≠ []
  nodup : ∀ f, (s.files f).nodes.Nodup
  privGone : ∀ b, .privGone b ∉ s.faults
  nodesLeft : ∀ f, .nodesLeft f ∉ s.faults

namespace Outlived

theorem init : Outlived State.init where
  closed := fun _ _ => rfl
  node := fun _ _ h => absurd h List.not_mem_nil
  nodup := fun _ => List.nodup_nil
  privGone := fun _ => List.not_mem_nil
  nodesLeft := fun _ => List.not_mem_nil

/-- Changes that leave the BOs' files and holders alone and add no node. -/
theorem congr (h : Outlived s) (hfile : ∀ b, (t.bos b).file = (s.bos b).file)
    (hholders : ∀ b, (t.bos b).kref.holders = (s.bos b).kref.holders)
    (hpriv : ∀ f, (t.files f).priv = (s.files f).priv)
    (hnodes : ∀ f, (t.files f).nodes.Sublist (s.files f).nodes)
    (hgone : ∀ b, .privGone b ∈ t.faults → .privGone b ∈ s.faults)
    (hleft : ∀ f, .nodesLeft f ∈ t.faults → .nodesLeft f ∈ s.faults) : Outlived t where
  closed := fun b hp => by
    rw [hfile, hpriv] at hp
    rw [hholders, h.closed b hp]
  node := fun f b hb => by
    rw [hfile, hholders]
    exact h.node f b ((hnodes f).subset hb)
  nodup := fun f => (h.nodup f).sublist (hnodes f)
  privGone := fun b hb => h.privGone b (hgone b hb)
  nodesLeft := fun f hf => h.nodesLeft f (hleft f hf)

theorem setFile (h : Outlived s) {g : File → File}
    (hp : (g (s.files f)).priv = (s.files f).priv)
    (hn : (g (s.files f)).nodes.Sublist (s.files f).nodes) : Outlived (s.setFile f g) := by
  refine h.congr (fun _ => rfl) (fun _ => rfl) (fun f' => ?_) (fun f' => ?_) (fun _ => id)
    (fun _ => id) <;> by_cases hf : f' = f
  · simp [hf, hp]
  · simp [hf]
  · simpa [hf] using hn
  · simp [hf]

theorem setBo (h : Outlived s) {g : Bo → Bo} (hfile : (g (s.bos b)).file = (s.bos b).file)
    (hholders : (g (s.bos b)).kref.holders = (s.bos b).kref.holders) : Outlived (s.setBo b g) := by
  refine h.congr (fun b' => ?_) (fun b' => ?_) (fun _ => rfl) (fun _ => .refl _) (fun _ => id)
    (fun _ => id) <;> by_cases hb : b' = b <;> simp [hb, hfile, hholders]

theorem setDomain (h : Outlived s) (d : ℕ) (g : IommuDomain → IommuDomain) :
    Outlived (s.setDomain d g) :=
  h.congr (fun _ => rfl) (fun _ => rfl) (fun _ => rfl) (fun _ => .refl _) (fun _ => id)
    fun _ => id

theorem setJob (h : Outlived s) (j : ℕ) (g : Job → Job) : Outlived (s.setJob j g) :=
  h.congr (fun _ => rfl) (fun _ => rfl) (fun _ => rfl) (fun _ => .refl _) (fun _ => id)
    fun _ => id

theorem expect (h : Outlived s) {p : Prop} [Decidable p] {x : Fault}
    (hgone : ∀ b, x = .privGone b → p) (hleft : ∀ f, x = .nodesLeft f → p) :
    Outlived (s.expect p x) := by
  have hold : ∀ y ∈ (s.expect p x).faults, y ∈ s.faults ∨ y = x ∧ ¬ p := by
    intro y hy
    rw [State.expect_faults] at hy
    split_ifs at hy with hp
    · exact .inl hy
    · rcases List.mem_cons.mp hy with hx | hy
      · exact .inr ⟨hx, hp⟩
      · exact .inl hy
  refine h.congr (fun _ => rfl) (fun _ => rfl) (fun _ => rfl) (fun _ => .refl _) (fun b hb => ?_)
    (fun f hf => ?_)
  · exact (hold _ hb).resolve_right fun ⟨he, hp⟩ => hp (hgone b he.symm)
  · exact (hold _ hf).resolve_right fun ⟨he, hp⟩ => hp (hleft f he.symm)

theorem drmMmRemoveNode (h : Outlived s) (b : ℕ) : Outlived (s.drmMmRemoveNode b) :=
  (h.expect (by simp) (by simp)).setFile rfl List.erase_sublist

theorem domainGet (h : Outlived s) (w : DomainHolder) (f : ℕ) : Outlived (s.domainGet w f) :=
  h.setDomain _ _

theorem domainPut (h : Outlived s) (w : DomainHolder) (f : ℕ) : Outlived (s.domainPut w f) :=
  (h.expect (by simp) (by simp)).setDomain _ _

theorem drmGemShmemFree (h : Outlived s) (b : ℕ) : Outlived (s.drmGemShmemFree b) :=
  h.setBo rfl rfl

/-- A holder's put: if it is the last, the BO is freed before its file is gone. -/
theorem boPut (h : Outlived s) (hs : (s.bos b).kref.Sound) (hm : w ∈ (s.bos b).kref.holders) :
    Outlived (s.boPut w b) := by
  have hpriv : (s.files (s.bos b).file).priv := by
    by_contra hp
    simp [h.closed b (by simpa using hp)] at hm
  have hlast := hs.put_last_iff hm
  refine ⟨fun b' hp => ?_, fun f b' hb' => ?_, fun f => ?_, fun b' hb' => ?_, fun f hf => ?_⟩
  · rw [State.boPut_priv, State.boPut_file] at hp
    by_cases hb : b' = b
    · subst hb
      simp [hpriv] at hp
    · rw [State.boPut_ne hb]
      exact h.closed b' hp
  · rw [State.boPut_files] at hb'
    rw [State.boPut_file]
    have hold : b' ∈ (s.files f).nodes := by
      dsimp only at hb'
      split_ifs at hb' with h1
      · exact List.mem_of_mem_erase hb'
      · exact hb'
    obtain ⟨hfile, hne⟩ := h.node f b' hold
    refine ⟨hfile, ?_⟩
    by_cases hb : b' = b
    · subst hb
      rw [State.boPut_bo]
      -- the node of a BO whose last reference went is no longer there
      intro hnil
      have h1 : (s.bos b').kref.count = 1 := hlast.mpr hnil
      simp [h1, hfile, (h.nodup f).mem_erase_iff] at hb'
    · rw [State.boPut_ne hb]
      exact hne
  · rw [State.boPut_files]
    dsimp only
    split_ifs
    · exact (h.nodup f).erase b
    · exact h.nodup f
  · rcases State.mem_boPut_faults hb' with hb' | ⟨-, ⟨-, hp⟩ | ⟨he, -⟩ | ⟨he, -⟩⟩
    · exact h.privGone b' hb'
    · exact hp hpriv
    · cases he
    · cases he
  · rcases State.mem_boPut_faults hf with hf | ⟨-, ⟨he, -⟩ | ⟨he, -⟩ | ⟨he, -⟩⟩
    · exact h.nodesLeft f hf
    · cases he
    · cases he
    · cases he

theorem boMade (h : Outlived s) (hu : (s.bos s.nextBo).kref.holders = [])
    (hp : (s.files f).priv) (size : BitVec 32) : Outlived (s.boMade f size) := by
  refine ⟨fun b hb => ?_, fun f' b hb => ?_, h.nodup, h.privGone, h.nodesLeft⟩ <;>
    by_cases hn : b = s.nextBo
  · subst hn
    simp [hp] at hb
  · simp only [State.boMade_bos, State.boMade_files, Function.update_of_ne hn] at hb ⊢
    exact h.closed b hb
  · subst hn
    exact absurd hu (h.node f' _ hb).2
  · simpa [hn] using h.node f' b hb

/-- One more holder of a BO whose file is open. -/
theorem getBo (h : Outlived s) (hp : (s.files (s.bos b).file).priv) (w : BoHolder) :
    Outlived (s.setBo b fun bo => { bo with kref := bo.kref.get w }) := by
  refine ⟨fun b' hb => ?_, fun f b' hb => ?_, h.nodup, h.privGone, h.nodesLeft⟩ <;>
    by_cases hn : b' = b
  · subst hn
    simp [hp] at hb
  · simp only [State.setBo_bos, State.setBo_files, Function.update_of_ne hn] at hb ⊢
    exact h.closed b' hb
  · subst hn
    simpa [Ref.get] using (h.node f b' hb).1
  · simpa [hn] using h.node f b' hb

theorem boHandled (h : Outlived s) (hw : Wf s) (hp : (s.files f).priv) (size : BitVec 32)
    (k : ℕ) : Outlived (s.boHandled f size k) := by
  have hmade := h.boMade (hw.unborn _ (Nat.le_refl _)) hp size
  refine Outlived.boPut (w := .creator) (Outlived.getBo (hmade.setFile ?_ ?_) ?_ _) ?_ ?_
  · rfl
  · exact .refl _
  · simp [hp]
  · simp [Ref.Sound, Ref.init, Ref.get]
  · simp [Ref.init, Ref.get]

/-- The node goes to a BO that is held and has none. -/
theorem drmMmInsertNode (h : Outlived s) (reply : Except Errno ℕ)
    (hb : (s.bos b).kref.holders ≠ []) (hn : b ∉ (s.files (s.bos b).file).nodes) :
    Outlived (s.drmMmInsertNode reply b) := by
  cases reply with
  | error e => exact h
  | ok start =>
    rw [State.drmMmInsertNode]
    have hnode : Outlived (s.setFile (s.bos b).file fun file =>
        { file with nodes := b :: file.nodes }) := by
      refine ⟨fun b' hp => ?_, fun f b' hb' => ?_, fun f => ?_, h.privGone, h.nodesLeft⟩
      · by_cases hf : (s.bos b').file = (s.bos b).file
        · exact h.closed b' (by simpa [hf] using hp)
        · exact h.closed b' (by simpa [hf] using hp)
      · by_cases hf : f = (s.bos b).file
        · subst hf
          simp only [State.setFile_files, Function.update_self, List.mem_cons] at hb'
          rcases hb' with rfl | hb'
          · exact ⟨rfl, hb⟩
          · exact h.node _ b' hb'
        · exact h.node f b' (by simpa [hf] using hb')
      · by_cases hf : f = (s.bos b).file
        · subst hf
          simpa using ⟨hn, h.nodup _⟩
        · simpa [hf] using h.nodup f
    exact hnode.setBo rfl rfl

theorem afterCreate (h : Outlived s) (hw : Wf s) (hp : (s.files f).priv) (env : CreateEnv)
    (size : BitVec 32) (c : CreateEnding) : Outlived (s.afterCreate env f size c) := by
  have hunborn := hw.unborn s.nextBo (Nat.le_refl _)
  have hmade := h.boMade hunborn hp size
  have hhandled := fun k => h.boHandled hw hp size k
  have hinserted : ∀ k, Outlived (s.boInserted env f size k) := by
    intro k
    apply (hhandled k).drmMmInsertNode
    · simp [State.boHandled_kref]
    · rw [State.boHandled_file, State.boHandled_nodes]
      exact fun hm => (h.node f _ hm).2 hunborn
  have hmapped : ∀ k, Outlived (s.boMapped env f size k) := fun k => (hinserted k).setDomain _ _
  cases c with
  | shmem e => exact h
  | handle e =>
    refine (hmade.boPut ?_ ?_).drmGemShmemFree _ <;>
      simp [Ref.init, Ref.Sound]
  | sgt k e => exact (hhandled k).drmGemShmemFree _
  | unmapped k => exact ((hinserted k).drmMmRemoveNode _).drmGemShmemFree _
  | truncated k => exact ((hmapped k).drmMmRemoveNode _).drmGemShmemFree _
  | done k =>
    rw [State.afterCreate]
    refine (hmapped k).setBo ?_ ?_ <;> rfl

/-- References for a job, on BOs of an open file. -/
theorem withJob (h : Outlived s) {job : Job}
    (hbs : ∀ b ∈ bs, (s.files (s.bos b).file).priv) : Outlived (s.withJob job bs) := by
  refine ⟨fun b hp => ?_, fun f b hb => ?_, h.nodup, h.privGone, h.nodesLeft⟩
  · have hno : b ∉ bs := fun hm => by simp [hbs b hm] at hp
    simpa [Ref.getMany, List.count_eq_zero_of_not_mem hno] using h.closed b hp
  · obtain ⟨hfile, hne⟩ := h.node f b hb
    exact ⟨hfile, by simp [Ref.getMany, hne]⟩

/-- The puts of a job that holds what it puts. -/
theorem bosPut (h : Outlived s) (hw : Wf s) (hj : ¬ (s.jobs j).stage.Pending) (hh : s.Holds j bs) :
    Outlived (s.bosPut j bs) := by
  induction bs generalizing s with
  | nil => exact h
  | cons b bs ih =>
    have hput := hw.boPut hh.mem (by simp) (by
      intro j' he
      cases he
      exact hj)
    refine ih ((h.boPut (hw.sound b) hh.mem).setJob _ _) (hput.setJob ?_ (.inl rfl)) ?_ hh.boPut
    · simpa using hj
    · simpa using hj

theorem jobCleaned (h : Outlived s) (hw : Wf s) (hj : ¬ (s.jobs j).stage.Pending)
    (hh : s.Holds j ((s.jobs j).ins ++ (s.jobs j).outs)) : Outlived (s.jobCleaned f j) := by
  have hput := (h.domainPut (.job j) f).bosPut (hw.domainPut (.job j) f) hj hh
  exact hput.setJob _ _

theorem jobFreed (h : Outlived s) (hw : Wf s) (hj : (s.jobs j).stage = .taken) :
    Outlived (s.jobFreed f j) := by
  have hp : (s.jobs j).stage.Pending := by simp [hj, Stage.Pending]
  refine (h.setJob _ _).jobCleaned (hw.setJob id (.inr (hw.lt_nextJob hp))) ?_ ?_
  · simp [Stage.Pending]
  · have hholds := hw.held j hp
    rw [(hw.ready j hp).taken] at hholds
    simpa [State.Holds, Job.ins, Job.outs] using hholds

theorem afterSubmit (h : Outlived s) (hw : Wf s) (hp : (s.files f).priv) {c : SubmitEnding}
    (hc : c.Fits (s.files f).handles desc) : Outlived (s.afterSubmit f c) := by
  have hopen : ∀ {bs : List ℕ}, (∀ b ∈ bs, ∃ k, (k, b) ∈ (s.files f).handles) →
      ∀ b ∈ bs, (s.files (s.bos b).file).priv := by
    intro bs hbs b hb
    obtain ⟨k, hk⟩ := hbs b hb
    rw [hw.entry f k b hk]
    exact hp
  have hacquired : ∀ job : Job, (∀ b ∈ job.taken, ∃ k, (k, b) ∈ (s.files f).handles) →
      Outlived (s.acquired f job) := by
    intro job hmem
    have hwith : Outlived (s.withJob { job with domain := some f } job.taken) :=
      h.withJob (hopen hmem)
    exact hwith.domainGet _ _
  cases c with
  | noTasks => exact h
  | noJob => exact h
  | unprepared job => exact (h.withJob (hopen hc.2.2.2)).expect (by simp) (by simp)
  | noArray job => exact hacquired job hc.2.2
  | notPushed job e =>
    obtain ⟨hkept, hprep, hmem⟩ := hc
    have hstage : job.stage = .preparing := hkept.stage
    have hwf : Wf (s.acquired f job) := hw.acquired hstage fun b hb => ⟨f, hmem b hb⟩
    have hholds := State.acquired_holds f job s
    rw [hprep.taken] at hholds
    refine ((hacquired job hmem).setJob _ _).jobCleaned (hwf.setJob ?_ (.inl rfl)) ?_ ?_
    · rw [State.acquired_job]
      simp [hstage, Stage.Pending]
    · simp [State.acquired_job, hstage, Stage.Pending]
    · simpa [State.Holds, State.acquired_job, Job.ins, Job.outs] using hholds
  | pushed job =>
    rw [State.afterSubmit]
    refine ((hacquired job hc.2.2).setJob _ _).setFile ?_ ?_
    · rfl
    · exact .refl _

theorem newFile (h : Outlived s) : Outlived s.newFile := by
  refine ⟨fun b hp => ?_, fun f b hb => ?_, fun f => ?_, h.privGone, h.nodesLeft⟩
  · by_cases hf : (s.bos b).file = s.nextFile
    · simp [hf] at hp
    · exact h.closed b (by simpa [hf] using hp)
  · by_cases hf : f = s.nextFile
    · simp [hf] at hb
    · exact h.node f b (by simpa [hf] using hb)
  · by_cases hf : f = s.nextFile
    · simp [hf]
    · simpa [hf] using h.nodup f

/-- The file goes when nobody holds a BO of it. -/
theorem privDropped (h : Outlived s) (hf : ∀ b, (s.bos b).file = f → (s.bos b).kref.holders = []) :
    Outlived (s.privDropped f) := by
  have hnil : (s.files f).nodes = [] := by
    rw [List.eq_nil_iff_forall_not_mem]
    intro b hb
    obtain ⟨hfile, hne⟩ := h.node f b hb
    exact hne (hf b hfile)
  have hput : Outlived ((s.drmMmTakedown f).domainPut .file f) :=
    (h.expect (by simp) fun _ _ => hnil).domainPut _ _
  have hbos : ∀ b, (((s.drmMmTakedown f).domainPut .file f).bos b).file = (s.bos b).file :=
    fun _ => rfl
  refine ⟨fun b hp => ?_, fun f' b hb => ?_, fun f' => ?_, hput.privGone, hput.nodesLeft⟩
  · by_cases hb : (s.bos b).file = f
    · exact hf b hb
    · exact hput.closed b (by simpa [hbos, hb] using hp)
  · by_cases hf' : f' = f
    · exact hput.node f' b (by simpa [hf'] using hb)
    · exact hput.node f' b (by simpa [hf'] using hb)
  · by_cases hf' : f' = f
    · simpa [hf'] using hput.nodup f
    · simpa [hf'] using hput.nodup f'

end Outlived

/-- No BO is under creation. -/
def State.Created (s : State) : Prop := ∀ b, .creator ∉ (s.bos b).kref.holders

namespace State.Created

theorem boPut (h : s.Created) (w : BoHolder) (b : ℕ) : (s.boPut w b).Created := by
  intro b'
  by_cases hb : b' = b
  · subst hb
    rw [State.boPut_bo]
    exact fun hm => h b' (List.mem_of_mem_erase hm)
  · rw [State.boPut_ne hb]
    exact h b'

theorem setBo (h : s.Created) {g : Bo → Bo} (hg : (g (s.bos b)).kref = (s.bos b).kref) :
    (s.setBo b g).Created := by
  intro b'
  by_cases hb : b' = b
  · subst hb
    simpa [hg] using h b'
  · simpa [hb] using h b'

theorem drmGemShmemFree (h : s.Created) (b : ℕ) : (s.drmGemShmemFree b).Created :=
  h.setBo (by rfl)

theorem withJob (h : s.Created) (job : Job) (bs : List ℕ) : (s.withJob job bs).Created := by
  intro b
  simpa [Ref.getMany] using h b

theorem jobCleaned (h : s.Created) (f j : ℕ) : (s.jobCleaned f j).Created :=
  State.bosPut_induct (P := State.Created) j (fun _ b h => h.boPut _ b) (fun _ _ h => h) _ _ h

theorem afterSubmit (h : s.Created) (f : ℕ) (c : SubmitEnding) : (s.afterSubmit f c).Created := by
  cases c with
  | noTasks => exact h
  | noJob => exact h
  | unprepared job => exact h.withJob job job.taken
  | noArray job => exact h.withJob { job with domain := some f } job.taken
  | notPushed job e =>
    have hacquired : (s.acquired f job).Created := h.withJob { job with domain := some f } job.taken
    have hset : ((s.acquired f job).setJob s.nextJob fun job =>
      { job with schedCleanups := job.schedCleanups + 1, refcount := 0 }).Created := hacquired
    exact hset.jobCleaned f s.nextJob
  | pushed job => exact h.withJob { job with domain := some f } job.taken

theorem afterCreate (h : s.Created) (env : CreateEnv) (f : ℕ) (size : BitVec 32)
    (c : CreateEnding) : (s.afterCreate env f size c).Created := by
  have hhandled : ∀ k, (s.boHandled f size k).Created := by
    intro k b
    by_cases hb : b = s.nextBo
    · subst hb
      simp [State.boHandled_kref]
    · simpa [State.boHandled, State.boPut_ne hb, hb] using h b
  have hinserted : ∀ k, (s.boInserted env f size k).Created := by
    intro k
    unfold State.boInserted State.drmMmInsertNode
    split
    · refine State.Created.setBo (s := State.setFile _ _ _) (hhandled k) ?_
      rfl
    · exact hhandled k
  have hmapped : ∀ k, (s.boMapped env f size k).Created := fun k => hinserted k
  cases c with
  | shmem e => exact h
  | handle e =>
    intro b
    by_cases hb : b = s.nextBo
    · subst hb
      simp [State.afterCreate, State.boPut_bo, Ref.init, Ref.put]
    · simpa [State.afterCreate, State.boPut_ne hb, hb] using h b
  | sgt k e => exact (hhandled k).drmGemShmemFree _
  | unmapped k =>
    have hremoved : ((s.boInserted env f size k).drmMmRemoveNode s.nextBo).Created := hinserted k
    exact hremoved.drmGemShmemFree _
  | truncated k =>
    have hremoved : ((s.boMapped env f size k).drmMmRemoveNode s.nextBo).Created := hmapped k
    exact hremoved.drmGemShmemFree _
  | done k =>
    rw [State.afterCreate]
    refine State.Created.setBo (hmapped k) ?_
    rfl

theorem step (h : s.Created) (hw : Wf s) {op : Op} (ha : op.Admissible s) :
    (op.run abi s).Created := by
  cases op with
  | «open» env =>
    rcases rocketOpen_cases env s with he | he | he <;> rw [Op.run, he] <;> exact h
  | createBo env f size =>
    rw [Op.run, rocketIoctlCreateBo_eq]
    exact h.afterCreate env f size _
  | submitJob env f desc =>
    rw [Op.run, rocketIoctlSubmitJob_eq hw]
    exact h.afterSubmit f _
  | dropHandle f k =>
    rcases hw.dropHandle_cases f k with he | ⟨b, -, he⟩ <;> rw [Op.run, he]
    · exact h
    · have hset : (s.setFile f fun file =>
        { file with handles := file.handles.erase (k, b) }).Created := h
      exact hset.boPut _ b
  | takeJob f j => exact h
  | freeJob j =>
    have htaken : (s.jobs j).stage = .taken := ha
    obtain ⟨f, hf⟩ := (hw.ready j (by simp [htaken, Stage.Pending])).domain
    rw [Op.run, (hw.freeJob ha hf).1]
    exact State.Created.jobCleaned (s := s.setJob j _) h f j
  | postclose f => exact h

end State.Created

/-- What a run needs so that no BO outlives its file: when a file is closed, no job holds a
BO of it. -/
def Op.Drained (s : State) : Op → Prop
  | .postclose f => ∀ b j, (s.bos b).file = f → .job j ∉ (s.bos b).kref.holders
  | _ => True

/-- The handles are dropped before the file is closed: nobody holds its BOs but jobs. -/
theorem State.Created.holders_nil (h : s.Created) (hw : Wf s) (hclosed : (s.files f).handles = [])
    (hjobs : ∀ j, .job j ∉ (s.bos b).kref.holders) (hb : (s.bos b).file = f) :
    (s.bos b).kref.holders = [] := by
  rw [List.eq_nil_iff_forall_not_mem]
  rintro (_ | k | j) hm
  · exact h b hm
  · have hc := hw.handle b k
    rw [hb, hclosed, List.count_nil, List.count_eq_zero] at hc
    exact hc hm
  · exact hjobs j hm

theorem Outlived.step (h : Outlived s) (hw : Wf s) (hc : s.Created) {op : Op}
    (ha : op.Admissible s) (hd : op.Drained s) : Outlived (op.run abi s) := by
  cases op with
  | «open» env =>
    rcases rocketOpen_cases env s with he | he | he <;> rw [Op.run, he]
    · exact h
    · exact h.newFile
    · refine h.newFile.privDropped fun b hb => h.closed b ?_
      have hb' : (s.bos b).file = s.nextFile := hb
      rw [hb']
      exact (hw.unopened _ (Nat.le_refl _)).2
  | createBo env f size =>
    rw [Op.run, rocketIoctlCreateBo_eq]
    exact h.afterCreate hw ha.1 env size _
  | submitJob env f desc =>
    rw [Op.run, rocketIoctlSubmitJob_eq hw]
    exact h.afterSubmit hw ha (env.ending_fits abi _ desc)
  | dropHandle f k =>
    rcases hw.dropHandle_cases f k with he | ⟨b, hm, he⟩ <;> rw [Op.run, he]
    · exact h
    · refine Outlived.boPut (h.setFile ?_ ?_) (hw.sound b) (hw.handle_mem hm)
      · rfl
      · exact .refl _
  | takeJob f j => exact h.setJob j ({ · with stage := .taken })
  | freeJob j =>
    have htaken : (s.jobs j).stage = .taken := ha
    obtain ⟨f, hf⟩ := (hw.ready j (by simp [htaken, Stage.Pending])).domain
    rw [Op.run, (hw.freeJob ha hf).1]
    exact h.jobFreed hw ha
  | postclose f =>
    exact h.privDropped fun b hb => hc.holders_nil hw ha.2.1 (fun j => hd b j hb) hb

/-- No BO was freed after the `rocket_file_priv` it points to, and no allocator was taken
down with a node in it. -/
def LivesInFile (s : State) : Prop :=
  (∀ b, .privGone b ∉ s.faults) ∧ ∀ f, .nodesLeft f ∉ s.faults

/-- After every step of a run that closes its files with no job on their BOs. -/
theorem bo_livesInFile
    (h : Reachable (· = State.init) (restrict (Step abi) fun s op => op.Drained s) s) :
    LivesInFile s := by
  suffices hi : Wf s ∧ s.Created ∧ Outlived s from ⟨hi.2.2.privGone, hi.2.2.nodesLeft⟩
  apply h.invariant (I := fun s => Wf s ∧ s.Created ∧ Outlived s)
  · rintro s rfl
    exact ⟨.init, fun _ => List.not_mem_nil, .init⟩
  · rintro s op t ⟨hw, hc, ho⟩ ⟨⟨ha, rfl⟩, hd⟩
    exact ⟨hw.step ha, hc.step hw ha, ho.step hw hc ha hd⟩

/-- The job is freed before the file is closed. -/
theorem bo_livesInFile_drained : LivesInFile
    ((Op.postclose 0).run ⟨16, 40⟩ ((Op.freeJob 0).run ⟨16, 40⟩ ((Op.takeJob 0 0).run ⟨16, 40⟩
      ((Op.dropHandle 0 1).run ⟨16, 40⟩ .shared)))) := by
  apply @bo_livesInFile ⟨16, 40⟩
  refine .step (e := .postclose 0) (.step (e := .freeJob 0) (.step (e := .takeJob 0 0)
    (.step (e := .dropHandle 0 1) (.step (e := .useBo) (.step (e := .makeBo)
      (.step (e := .open .smooth) (.start rfl) ⟨⟨trivial, rfl⟩, trivial⟩)
      ⟨⟨⟨rfl, fun _ _ => rfl⟩, rfl⟩, trivial⟩) ⟨⟨rfl, rfl⟩, trivial⟩) ⟨⟨rfl, rfl⟩, trivial⟩)
      ⟨⟨rfl, rfl⟩, trivial⟩) ⟨⟨rfl, rfl⟩, trivial⟩) ⟨⟨⟨rfl, rfl, rfl⟩, rfl⟩, ?_⟩
  rintro (_ | b) j _ <;> exact List.not_mem_nil

/-- A job that reads the BO runs on a core while the handles are dropped and the file is
closed; the scheduler frees it after that. -/
theorem not_bo_livesInFile : ¬ ∀ s, Reaches ⟨16, 40⟩ s → LivesInFile s := by
  intro h
  have hshared := ((Reaches.opened ⟨16, 40⟩).run .makeBo ⟨rfl, fun _ _ => rfl⟩).run .useBo rfl
  have hclosed := ((hshared.run (.dropHandle 0 1) rfl).run (.takeJob 0 0) rfl).run (.postclose 0)
    ⟨rfl, rfl, rfl⟩
  have hfreed := hclosed.run (.freeJob 0) rfl
  exact (h _ hfreed).1 0 (by decide)

end RocketNpu.Drm
