import RocketNpu.Drm.Holders

namespace RocketNpu.Drm
open Runs Refcount Calls Call

variable {abi : Abi} {s t : State} {f j b : ℕ} {desc : JobDesc}

/-- What a call needs so that it leaves nothing behind: `create_bo` fails before there is an
object, or not at all, and `submit_job` comes back. -/
def Op.Clean (abi : Abi) (s : State) : Op → Prop
  | .createBo env _ size => env.shmem.isSome ∨ (∃ k, env.handle = .ok k) ∧ env.sgt = none ∧
      env.map = none ∧ pageAlign size.toNat ≤ intMax
  | .submitJob env f desc => desc.taskCount = 0 ∨ env.kzalloc = false ∨
      Completes abi env (s.files f).handles desc
  | _ => True

theorem Op.Clean.balanced {op : Op} (h : op.Clean abi s) : op.Balanced abi s := by
  cases op with
  | createBo env f size =>
    intro hshmem _
    rcases h with h | h
    · simp [hshmem] at h
    · exact h.2
  | submitJob env f desc =>
    refine h.imp_right (Or.imp_right ?_)
    rintro ⟨hinit, hcopies, hins, houts, -⟩
    exact ⟨hinit, hcopies, hins, houts⟩
  | «open» env => trivial
  | dropHandle f k => trivial
  | takeJob f j => trivial
  | freeJob j => trivial
  | postclose f => trivial

/-- How often a BO is freed in the end: as often as it was, and once more with its last
reference. -/
def Bo.ends (bo : Bo) : ℕ := bo.frees + if 0 < bo.kref.count then 1 else 0

namespace State

end State

/-- The scheduler has the job and will free it, or it is released. -/
def Job.Promised (job : Job) : Prop := job.stage.Pending ∨ Released job

/-- Each BO is freed once, or will be with its last reference; each job is released, or will
be by `free_job`. -/
structure Intact (s : State) : Prop where
  bos : ∀ b < s.nextBo, (s.bos b).ends = 1
  jobs : ∀ j < s.nextJob, (s.jobs j).Promised

theorem Intact.init : Intact .init where
  bos := fun b hb => absurd hb (Nat.not_lt_zero b)
  jobs := fun j hj => absurd hj (Nat.not_lt_zero j)

/-- The files have the same tables, and the same ones are open. -/
def SameTables (s t : State) : Prop :=
  ∀ f, (t.files f).priv = (s.files f).priv ∧ (t.files f).handles = (s.files f).handles

namespace SameTables

theorem trans {u : State} (h : SameTables s t) (h' : SameTables t u) : SameTables s u := fun f =>
  ⟨(h' f).1.trans (h f).1, (h' f).2.trans (h f).2⟩

theorem nodes (s : State) (d : ℕ) (g : File → List ℕ) :
    SameTables s (s.setFile d fun file => { file with nodes := g file }) := by
  intro f
  by_cases hf : f = d <;> simp [hf]

theorem drmMmInsertNode (s : State) (reply : Except Errno ℕ) (b : ℕ) :
    SameTables s (s.drmMmInsertNode reply b) := by
  cases reply with
  | error e => exact fun f => ⟨rfl, rfl⟩
  | ok start => exact nodes s (s.bos b).file fun file => b :: file.nodes

theorem drmMmRemoveNode (s : State) (b : ℕ) : SameTables s (s.drmMmRemoveNode b) :=
  nodes s (s.bos b).file fun file => file.nodes.erase b

theorem boPut (s : State) (w : BoHolder) (b : ℕ) : SameTables s (s.boPut w b) := fun f =>
  ⟨State.boPut_priv f, State.boPut_handles f⟩

theorem boHandled (f : ℕ) (size : BitVec 32) (k : ℕ) (s : State) :
    SameTables (s.setFile f fun file => { file with handles := (k, s.nextBo) :: file.handles })
      (s.boHandled f size k) := by
  rw [State.boHandled]
  exact boPut (s := State.setBo (State.setFile _ _ _) _ _) .creator s.nextBo

theorem afterCreate (env : CreateEnv) (f : ℕ) (size : BitVec 32) (s : State) (c : CreateEnding) :
    SameTables (match c.entered with
      | none => s
      | some k => s.setFile f fun file => { file with handles := (k, s.nextBo) :: file.handles })
      (s.afterCreate env f size c) := by
  have hinserted : ∀ k,
      SameTables (s.setFile f fun file => { file with handles := (k, s.nextBo) :: file.handles })
        (s.boInserted env f size k) := fun k =>
    (boHandled f size k s).trans (drmMmInsertNode _ _ _)
  cases c with
  | shmem e => exact fun f => ⟨rfl, rfl⟩
  | handle e => exact boPut (s.boMade f size) .creator s.nextBo
  | sgt k e => exact boHandled f size k s
  | unmapped k => exact (hinserted k).trans (drmMmRemoveNode _ s.nextBo)
  | truncated k => exact (hinserted k).trans (drmMmRemoveNode (s.boMapped env f size k) s.nextBo)
  | done k => exact hinserted k

theorem jobCleaned (f j : ℕ) (s : State) : SameTables s (s.jobCleaned f j) :=
  State.bosPut_induct (P := SameTables s) j (fun _ b h => h.trans (boPut _ _ b)) (fun _ _ h => h)
    _ _ fun _ => ⟨rfl, rfl⟩

theorem afterSubmit (f : ℕ) (s : State) (c : SubmitEnding) :
    SameTables s (s.afterSubmit f c) := by
  cases c with
  | notPushed job e => exact jobCleaned f s.nextJob _
  | pushed job =>
    intro f'
    by_cases hf : f' = f <;> simp [State.afterSubmit, hf]
  | noTasks => exact fun f => ⟨rfl, rfl⟩
  | noJob => exact fun f => ⟨rfl, rfl⟩
  | unprepared job => exact fun f => ⟨rfl, rfl⟩
  | noArray job => exact fun f => ⟨rfl, rfl⟩

end SameTables

/-- A closed file has no handles. -/
def Closed (s : State) : Prop := ∀ f, (s.files f).priv = false → (s.files f).handles = []

namespace Closed

theorem congr (h : Closed s) (hs : SameTables s t) : Closed t := by
  intro f hp
  rw [(hs f).1] at hp
  rw [(hs f).2, h f hp]

/-- A change of an open file's table. -/
theorem setFile (h : Closed s) {g : File → File} (hp : (g (s.files f)).priv) :
    Closed (s.setFile f g) := by
  intro f' hp'
  by_cases hf : f' = f
  · subst hf
    simp [hp] at hp'
  · simp only [State.setFile_files, Function.update_of_ne hf] at hp' ⊢
    exact h f' hp'

theorem step (h : Closed s) (hw : Wf s) {op : Op} (ha : op.Admissible s) :
    Closed (op.run abi s) := by
  have hnew : Closed s.newFile := by
    intro f hp
    by_cases hf : f = s.nextFile
    · simp [hf]
    · simp only [State.newFile_files, Function.update_of_ne hf] at hp ⊢
      exact h f hp
  have hdropped : ∀ t : State, Closed t → ∀ f, (t.files f).handles = [] →
      Closed (t.privDropped f) := by
    intro t ht f hnil f' hp
    by_cases hf : f' = f
    · simpa [hf] using hnil
    · simp only [State.privDropped_files, Function.update_of_ne hf] at hp ⊢
      exact ht f' hp
  cases op with
  | «open» env =>
    rcases rocketOpen_cases env s with he | he | he <;> rw [Op.run, he]
    · exact h
    · exact hnew
    · exact hdropped _ hnew _ (by simp)
  | createBo env f size =>
    rw [Op.run, rocketIoctlCreateBo_eq]
    refine Closed.congr ?_ (SameTables.afterCreate env f size s (env.ending size))
    split
    · exact h
    · exact h.setFile ha.1
  | submitJob env f desc =>
    rw [Op.run, rocketIoctlSubmitJob_eq hw]
    exact h.congr (.afterSubmit f s _)
  | dropHandle f k =>
    rcases hw.dropHandle_cases f k with he | ⟨b, -, he⟩ <;> rw [Op.run, he]
    · exact h
    · refine Closed.congr ?_ (.boPut _ _ b)
      exact h.setFile ha
  | takeJob f j => exact h
  | freeJob j =>
    have htaken : (s.jobs j).stage = .taken := ha
    obtain ⟨f, hf⟩ := (hw.ready j (by simp [htaken, Stage.Pending])).domain
    rw [Op.run, (hw.freeJob ha hf).1]
    exact Closed.congr h (.jobCleaned f j _)
  | postclose f => exact hdropped s h f ha.2.1

end Closed

end RocketNpu.Drm
