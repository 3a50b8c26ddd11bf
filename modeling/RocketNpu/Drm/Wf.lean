import Mathlib.Data.List.Count
import RocketNpu.Drm.Objects

namespace RocketNpu.Drm
open Refcount Calls Call

variable {s t : State} {b f j : ℕ} {w : BoHolder} {bs : List ℕ}

/-- The scheduler has the job: pushed, and not yet given to `free_job`. -/
def Stage.Pending : Stage → Prop
  | .queued | .taken => True
  | .preparing | .freed => False

/-- What `free_job` relies on when it is given the job. -/
structure Job.Ready (job : Job) : Prop where
  refcount : job.refcount = 1
  domain : ∃ f, job.domain = some f
  taken : job.taken = job.ins ++ job.outs
  dropped : job.dropped = []
  schedInits : job.schedInits = 1
  schedCleanups : job.schedCleanups = 0
  tasksAllocs : job.tasksAllocs = if job.tasks.isSome then 1 else 0
  tasksFrees : job.tasksFrees = 0
  frees : job.frees = 0

/-- The objects and the jobs that hold them. -/
structure Refs (s : State) : Prop where
  sound : ∀ b, (s.bos b).kref.Sound
  live : ∀ b, 0 < (s.bos b).kref.count → (s.bos b).domain = some (s.bos b).file
  unborn : ∀ b, s.nextBo ≤ b → (s.bos b).kref.holders = []
  future : ∀ j, s.nextJob ≤ j → (s.jobs j).stage = .preparing
  ready : ∀ j, (s.jobs j).stage.Pending → (s.jobs j).Ready
  held : ∀ j, (s.jobs j).stage.Pending →
    ∀ b, (s.jobs j).taken.count b ≤ (s.bos b).kref.holders.count (.job j)

/-- Holds between the calls; each object's handles are in the table of its own file. -/
structure Wf (s : State) : Prop extends Refs s where
  entry : ∀ f k b, (k, b) ∈ (s.files f).handles → (s.bos b).file = f
  handle : ∀ b k, (s.bos b).kref.holders.count (.handle k) =
    (s.files (s.bos b).file).handles.count (k, b)
  unopened : ∀ f, s.nextFile ≤ f → (s.files f).handles = [] ∧ (s.files f).priv = false

theorem Refs.lt_nextBo (h : Refs s) (hm : w ∈ (s.bos b).kref.holders) : b < s.nextBo := by
  by_contra hb
  rw [h.unborn b (Nat.le_of_not_lt hb)] at hm
  exact absurd hm List.not_mem_nil

/-- A put keeps the count in step, unless the reference is that of a job the scheduler
has. -/
theorem Refs.boPut (h : Refs s) (hm : w ∈ (s.bos b).kref.holders)
    (hj : ∀ j, w = .job j → ¬ (s.jobs j).stage.Pending) : Refs (s.boPut w b) := by
  refine ⟨fun b' => ?_, fun b' hc => ?_, fun b' hb' => ?_, by simpa using h.future,
    by simpa using h.ready, fun j' hp b' => ?_⟩
  · by_cases hb : b' = b
    · subst hb
      rw [State.boPut_bo]
      exact (h.sound b').put hm
    · rw [State.boPut_ne hb]
      exact h.sound b'
  · by_cases hb : b' = b
    · subst hb
      rw [State.boPut_bo] at hc ⊢
      simp only [Ref.put] at hc
      rw [if_neg (by omega)]
      exact h.live b' (by omega)
    · rw [State.boPut_ne hb] at hc ⊢
      exact h.live b' hc
  · have hb : b' ≠ b := by
      rintro rfl
      exact absurd (h.lt_nextBo hm) (Nat.not_lt.mpr (by simpa using hb'))
    rw [State.boPut_ne hb]
    exact h.unborn b' (by simpa using hb')
  · rw [State.boPut_jobs] at hp ⊢
    -- the reference put is not one of a pending job
    rw [State.boPut_count_ne fun he => hj j' he.symm hp]
    exact h.held j' hp b'

namespace Wf

theorem init : Wf State.init where
  sound := fun _ => rfl
  live := fun _ h => absurd h (Nat.lt_irrefl 0)
  unborn := fun _ _ => rfl
  future := fun _ _ => rfl
  ready := fun _ h => absurd h id
  held := fun _ h => absurd h id
  entry := fun _ _ _ h => absurd h List.not_mem_nil
  handle := fun _ _ => rfl
  unopened := fun _ _ => ⟨rfl, rfl⟩

theorem congr (h : Wf s)
    (hkref : ∀ b, (t.bos b).kref = (s.bos b).kref)
    (hdomain : ∀ b, (t.bos b).domain = (s.bos b).domain)
    (hfile : ∀ b, (t.bos b).file = (s.bos b).file)
    (hfiles : ∀ f, (t.files f).handles = (s.files f).handles)
    (hpriv : ∀ f, (t.files f).priv → (s.files f).priv) (hjobs : t.jobs = s.jobs)
    (hnf : t.nextFile = s.nextFile) (hnb : t.nextBo = s.nextBo) (hnj : t.nextJob = s.nextJob) :
    Wf t := by
  obtain ⟨⟨h1, h2, h3, h4, h5, h6⟩, h7, h8, h9⟩ := h
  constructor
  · constructor <;> simpa only [hkref, hdomain, hfile, hjobs, hnb, hnj]
  · simpa only [hfile, hfiles]
  · simpa only [hkref, hfile, hfiles]
  · intro f hf
    rw [hnf] at hf
    obtain ⟨hnil, hfalse⟩ := h9 f hf
    exact ⟨(hfiles f).trans hnil, Bool.eq_false_iff.mpr fun hp => by simp [hpriv f hp] at hfalse⟩

theorem expect (h : Wf s) (p : Prop) [Decidable p] (x : Fault) : Wf (s.expect p x) :=
  h.congr (fun _ => rfl) (fun _ => rfl) (fun _ => rfl) (fun _ => rfl) (fun _ => id) rfl rfl rfl rfl

theorem setFile (h : Wf s) {g : File → File}
    (hg : (g (s.files f)).handles = (s.files f).handles)
    (hp : (g (s.files f)).priv → (s.files f).priv) : Wf (s.setFile f g) := by
  refine h.congr (fun _ => rfl) (fun _ => rfl) (fun _ => rfl) (fun f' => ?_) (fun f' => ?_)
    rfl rfl rfl rfl <;> by_cases hf : f' = f
  · subst hf
    simpa using hg
  · simp [hf]
  · subst hf
    simpa using hp
  · simp [hf]

/-- Fields of a BO other than its count, its domain and its file. -/
theorem setBo (h : Wf s) {g : Bo → Bo} (hkref : (g (s.bos b)).kref = (s.bos b).kref)
    (hdomain : (g (s.bos b)).domain = (s.bos b).domain)
    (hfile : (g (s.bos b)).file = (s.bos b).file) : Wf (s.setBo b g) := by
  refine h.congr (fun b' => ?_) (fun b' => ?_) (fun b' => ?_) (fun _ => rfl) (fun _ => id)
    rfl rfl rfl rfl <;> by_cases hb : b' = b <;> simp [hb, hkref, hdomain, hfile]

theorem setDomain (h : Wf s) (d : ℕ) (g : IommuDomain → IommuDomain) : Wf (s.setDomain d g) :=
  h.congr (fun _ => rfl) (fun _ => rfl) (fun _ => rfl) (fun _ => rfl) (fun _ => id) rfl rfl rfl rfl

/-- A job's record may change as it likes when the scheduler does not have the job then. -/
theorem setJob (h : Wf s) {g : Job → Job} (hj : ¬ (g (s.jobs j)).stage.Pending)
    (hg : (g (s.jobs j)).stage = (s.jobs j).stage ∨ j < s.nextJob) : Wf (s.setJob j g) := by
  have hother : ∀ j', ((s.setJob j g).jobs j').stage.Pending →
      (s.setJob j g).jobs j' = s.jobs j' := by
    intro j' hp
    by_cases he : j' = j
    · subst he
      exact absurd hp (by simpa using hj)
    · simp [he]
  refine ⟨⟨h.sound, h.live, h.unborn, fun j' hn => ?_, fun j' hp => ?_, fun j' hp => ?_⟩,
    h.entry, h.handle, h.unopened⟩
  · by_cases he : j' = j
    · subst he
      rcases hg with hg | hg
      · simpa [hg] using h.future j' hn
      · exact absurd hg (Nat.not_lt.mpr hn)
    · simpa [he] using h.future j' hn
  · have he := hother j' hp
    rw [he] at hp ⊢
    exact h.ready j' hp
  · have he := hother j' hp
    rw [he] at hp ⊢
    exact h.held j' hp

theorem handle_mem (h : Wf s) {k : ℕ} (hm : (k, b) ∈ (s.files f).handles) :
    .handle k ∈ (s.bos b).kref.holders := by
  rw [← List.count_pos_iff, h.handle, h.entry f k b hm, List.count_pos_iff]
  exact hm

theorem put_live (h : Wf s) (w : BoHolder) (b : ℕ) :
    drmGemObjectPut w b s = (.ok ⟨⟩, s.boPut w b) :=
  drmGemObjectPut_live fun h1 => h.live b (by omega)

theorem boPut (h : Wf s) (hm : w ∈ (s.bos b).kref.holders) (hh : ∀ k, w ≠ .handle k)
    (hj : ∀ j, w = .job j → ¬ (s.jobs j).stage.Pending) : Wf (s.boPut w b) := by
  refine ⟨h.toRefs.boPut hm hj, fun f k b' he => ?_, fun b' k => ?_, by simpa using h.unopened⟩
  · rw [State.boPut_handles] at he
    rw [State.boPut_file]
    exact h.entry f k b' he
  · rw [State.boPut_count_ne (hh k).symm, State.boPut_file, State.boPut_handles]
    exact h.handle b' k

/-- A handle goes from the table together with its reference. -/
theorem deleteHandle (h : Wf s) {k : ℕ} (hm : (k, b) ∈ (s.files f).handles) :
    Wf ((s.setFile f fun file => { file with handles := file.handles.erase (k, b) }).boPut
      (.handle k) b) := by
  have hf := h.entry f k b hm
  refine ⟨Refs.boPut ⟨h.sound, h.live, h.unborn, h.future, h.ready, h.held⟩ (h.handle_mem hm)
    (fun j hw => by cases hw), fun f' k' b' he => ?_, fun b' k' => ?_, fun f' hn => ?_⟩
  · rw [State.boPut_handles] at he
    rw [State.boPut_file]
    apply h.entry f' k' b'
    by_cases hf' : f' = f
    · subst hf'
      exact List.mem_of_mem_erase (by simpa using he)
    · simpa [hf'] using he
  · rw [State.boPut_file, State.boPut_handles]
    by_cases hb : b' = b
    · subst hb
      -- the entry and the reference go together
      have hc := h.handle b' k'
      rw [hf] at hc
      simp only [State.boPut_bo, Ref.put, State.setFile_bos, State.setFile_files, hf,
        Function.update_self, List.count_erase, hc]
      by_cases hk : k = k' <;> simp [hk]
    · rw [State.boPut_ne hb]
      have hc := h.handle b' k'
      by_cases hf' : (s.bos b').file = f
      · rw [hf'] at hc
        simp only [State.setFile_bos, State.setFile_files, hf', Function.update_self, hc]
        rw [List.count_erase_of_ne (by simp [hb])]
      · simpa [hf'] using hc
  · have hu := h.unopened f' (by simpa using hn)
    have hne : f' ≠ f := by
      rintro rfl
      rw [hu.1] at hm
      exact absurd hm List.not_mem_nil
    simpa [hne] using hu

end Wf

end RocketNpu.Drm
