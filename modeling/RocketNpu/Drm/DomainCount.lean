import RocketNpu.Drm.SubmitJob

namespace RocketNpu.Drm
open Runs Refcount Calls Call

variable {abi : Abi} {s t : State} {f j b : ℕ}

/-- Who should hold the domain of file `f`: the file while its `rocket_file_priv` exists,
its BOs until they are freed, and the jobs that took it until they are cleaned up. -/
def State.Holder (s : State) (f : ℕ) : DomainHolder → Prop
  | .file => (s.files f).priv
  | .bo b => b < s.nextBo ∧ (s.bos b).file = f ∧ (s.bos b).frees = 0
  | .job j => j < s.nextJob ∧ (s.jobs j).domain = some f ∧ (s.jobs j).frees = 0

/-- The domains count their holders. -/
structure Counts (s : State) : Prop where
  sound : ∀ f, (s.domains f).kref.Sound
  nodup : ∀ f, (s.domains f).kref.holders.Nodup
  mem : ∀ f w, w ∈ (s.domains f).kref.holders ↔ s.Holder f w
  freed : ∀ f < s.nextFile, (s.domains f).freed ↔ (s.domains f).kref.holders = []
  unopened : ∀ f, s.nextFile ≤ f → (s.domains f).kref.holders = []
  frees : ∀ b < s.nextBo, (s.bos b).frees = 0 ↔ 0 < (s.bos b).kref.count
  faults : ∀ w, .putWithout w ∉ s.faults

namespace Counts

theorem init : Counts State.init where
  sound := fun _ => rfl
  nodup := fun _ => List.nodup_nil
  mem := fun f w => by cases w <;> simp [State.init, State.Holder]
  freed := fun f hf => absurd hf (Nat.not_lt_zero f)
  unopened := fun _ _ => rfl
  frees := fun b hb => absurd hb (Nat.not_lt_zero b)
  faults := fun _ => List.not_mem_nil

/-- Changes that neither make nor free a holder. -/
theorem congr (h : Counts s) (hkref : ∀ f, (t.domains f).kref = (s.domains f).kref)
    (hfreed : ∀ f, (t.domains f).freed = (s.domains f).freed)
    (hholder : ∀ f w, t.Holder f w ↔ s.Holder f w) (hnf : t.nextFile = s.nextFile)
    (hfrees : ∀ b < t.nextBo, (t.bos b).frees = 0 ↔ 0 < (t.bos b).kref.count)
    (hfaults : ∀ w, .putWithout w ∈ t.faults → .putWithout w ∈ s.faults) : Counts t where
  sound := fun f => hkref f ▸ h.sound f
  nodup := fun f => hkref f ▸ h.nodup f
  mem := fun f w => by rw [hkref, hholder, h.mem]
  freed := fun f hf => by rw [hfreed, hkref, h.freed f (hnf ▸ hf)]
  unopened := fun f hf => by rw [hkref, h.unopened f (hnf ▸ hf)]
  frees := hfrees
  faults := fun w hw => h.faults w (hfaults w hw)

/-- One holder goes, with its put. -/
theorem put (h : Counts s) {w : DomainHolder} (hw : s.Holder f w)
    (hkref : (t.domains f).kref = (s.domains f).kref.put w)
    (hother : ∀ f', f' ≠ f → (t.domains f').kref = (s.domains f').kref)
    (hfreed : (t.domains f).freed = ((s.domains f).freed || (s.domains f).kref.count == 1))
    (hfreed' : ∀ f', f' ≠ f → (t.domains f').freed = (s.domains f').freed)
    (hholder : ∀ f' w', t.Holder f' w' ↔ s.Holder f' w' ∧ ¬ (f' = f ∧ w' = w))
    (hnf : t.nextFile = s.nextFile)
    (hfrees : ∀ b < t.nextBo, (t.bos b).frees = 0 ↔ 0 < (t.bos b).kref.count)
    (hfaults : ∀ w, .putWithout w ∈ t.faults → .putWithout w ∈ s.faults) : Counts t := by
  have hm : w ∈ (s.domains f).kref.holders := (h.mem f w).mpr hw
  refine ⟨fun f' => ?_, fun f' => ?_, fun f' w' => ?_, fun f' hf' => ?_, fun f' hf' => ?_,
    hfrees, fun w hw => h.faults w (hfaults w hw)⟩ <;> by_cases hf : f' = f
  · subst hf
    exact hkref ▸ (h.sound f').put hm
  · exact hother f' hf ▸ h.sound f'
  · subst hf
    exact hkref ▸ (h.nodup f').erase w
  · exact hother f' hf ▸ h.nodup f'
  · subst hf
    simp only [hkref, Ref.put, (h.nodup f').mem_erase_iff, h.mem, hholder]
    tauto
  · rw [hother f' hf, h.mem, hholder]
    tauto
  · subst hf
    have hno : (s.domains f').freed = false := by
      rw [Bool.eq_false_iff, ne_eq, h.freed f' (hnf ▸ hf')]
      exact List.ne_nil_of_mem hm
    rw [hfreed, hno, hkref, Bool.false_or, beq_iff_eq]
    exact (h.sound f').put_last_iff hm
  · rw [hfreed' f' hf, hother f' hf]
    exact h.freed f' (hnf ▸ hf')
  · subst hf
    exact absurd hm (by simp [h.unopened f' (hnf ▸ hf')])
  · rw [hother f' hf]
    exact h.unopened f' (hnf ▸ hf')

/-- One holder comes, with its get, while another holds the domain. -/
theorem get (h : Counts s) {w v : DomainHolder} (hw : ¬ s.Holder f w) (hv : s.Holder f v)
    (hkref : (t.domains f).kref = (s.domains f).kref.get w)
    (hother : ∀ f', f' ≠ f → (t.domains f').kref = (s.domains f').kref)
    (hfreed : ∀ f', (t.domains f').freed = (s.domains f').freed)
    (hholder : ∀ f' w', t.Holder f' w' ↔ s.Holder f' w' ∨ f' = f ∧ w' = w)
    (hnf : t.nextFile = s.nextFile)
    (hfrees : ∀ b < t.nextBo, (t.bos b).frees = 0 ↔ 0 < (t.bos b).kref.count)
    (hfaults : ∀ w, .putWithout w ∈ t.faults → .putWithout w ∈ s.faults) : Counts t := by
  have hm : v ∈ (s.domains f).kref.holders := (h.mem f v).mpr hv
  refine ⟨fun f' => ?_, fun f' => ?_, fun f' w' => ?_, fun f' hf' => ?_, fun f' hf' => ?_,
    hfrees, fun w hw => h.faults w (hfaults w hw)⟩ <;> by_cases hf : f' = f
  · subst hf
    exact hkref ▸ (h.sound f').get w
  · exact hother f' hf ▸ h.sound f'
  · subst hf
    rw [hkref]
    exact List.nodup_cons.mpr ⟨fun hw' => hw ((h.mem f' w).mp hw'), h.nodup f'⟩
  · exact hother f' hf ▸ h.nodup f'
  · subst hf
    simp only [hkref, Ref.get, List.mem_cons, h.mem, hholder]
    tauto
  · rw [hother f' hf, h.mem, hholder]
    tauto
  · subst hf
    rw [hfreed, h.freed f' (hnf ▸ hf'), hkref]
    exact iff_of_false (List.ne_nil_of_mem hm) (List.cons_ne_nil _ _)
  · rw [hfreed, hother f' hf]
    exact h.freed f' (hnf ▸ hf')
  · subst hf
    exact absurd hm (by simp [h.unopened f' (hnf ▸ hf')])
  · rw [hother f' hf]
    exact h.unopened f' (hnf ▸ hf')

/-- The put of a BO's reference frees the BO, and puts its domain, when it is the last. -/
theorem boPut_frees (h : Counts s) (w : BoHolder) {b' : ℕ} (hb' : b' < s.nextBo) :
    ((s.boPut w b).bos b').frees = 0 ↔ 0 < ((s.boPut w b).bos b').kref.count := by
  by_cases he : b' = b
  · subst he
    have hold := h.frees b' hb'
    rw [State.boPut_bo]
    simp only [Ref.put]
    split_ifs with h1
    · exact iff_of_false id (by omega)
    · rw [Nat.add_zero, hold]
      omega
  · rw [State.boPut_ne he]
    exact h.frees b' hb'

theorem boPut (h : Counts s) (hb : s.nextBo ≤ b → (s.bos b).kref.count = 0) (w : BoHolder) :
    Counts (s.boPut w b) := by
  -- a BO whose last reference goes has not been freed, so it holds its domain
  have hholder : (s.bos b).kref.count = 1 → s.Holder (s.bos b).file (.bo b) := by
    intro h1
    have hlt : b < s.nextBo := by
      by_contra hn
      simp [hb (Nat.le_of_not_lt hn)] at h1
    exact ⟨hlt, rfl, (h.frees b hlt).mpr (by omega)⟩
  have hfaults : ∀ w', .putWithout w' ∈ (s.boPut w b).faults → .putWithout w' ∈ s.faults := by
    intro w' hw'
    rcases State.mem_boPut_faults hw' with hw' | ⟨h1, ⟨he, -⟩ | ⟨he, -⟩ | ⟨he, hno⟩⟩
    · exact hw'
    · cases he
    · cases he
    · exact absurd ((h.mem _ _).mpr (hholder h1)) hno
  have hfrees : ∀ b' < (s.boPut w b).nextBo,
      ((s.boPut w b).bos b').frees = 0 ↔ 0 < ((s.boPut w b).bos b').kref.count :=
    fun b' hb' => h.boPut_frees w (by simpa using hb')
  by_cases h1 : (s.bos b).kref.count = 1
  · apply h.put (hholder h1) ?_ ?_ ?_ ?_ ?_ (by simp) hfrees hfaults
    · simp [State.boPut_domain_kref, h1]
    · intro f' hf'
      simp [State.boPut_domain_kref, hf']
    · simp [State.boPut_domain_freed, h1]
    · intro f' hf'
      simp [State.boPut_domain_freed, hf']
    · rintro f' (_ | b' | j)
      · simp [State.Holder]
      · by_cases he : b' = b
        · subst he
          simp [State.Holder, State.boPut_bo, h1]
          tauto
        · simp [State.Holder, State.boPut_ne he, he]
      · simp [State.Holder]
  · apply h.congr ?_ ?_ ?_ (by simp) hfrees hfaults
    · intro f'
      simp [State.boPut_domain_kref, h1]
    · intro f'
      simp [State.boPut_domain_freed, h1]
    · rintro f' (_ | b' | j)
      · simp [State.Holder]
      · by_cases he : b' = b
        · subst he
          simp [State.Holder, State.boPut_bo, h1]
        · simp [State.Holder, State.boPut_ne he]
      · simp [State.Holder]

theorem newFile (h : Counts s) : Counts s.newFile := by
  have hnil := h.unopened s.nextFile (Nat.le_refl _)
  have hholder : ∀ f w,
      s.newFile.Holder f w ↔ if f = s.nextFile then w = .file else s.Holder f w := by
    intro f w
    have hnone := fun w => (h.mem s.nextFile w).symm.trans (by simp [hnil] : _ ↔ False)
    split_ifs with hf
    · subst hf
      cases w with
      | file => simp [State.Holder]
      | bo b => simpa [State.Holder] using (hnone (.bo b)).mp
      | job j => simpa [State.Holder] using (hnone (.job j)).mp
    · cases w <;> simp [State.Holder, hf]
  refine ⟨fun f => ?_, fun f => ?_, fun f w => ?_, fun f hf => ?_, fun f hf => ?_, h.frees,
    h.faults⟩
  all_goals by_cases he : f = s.nextFile
  · simpa [he] using Ref.Sound.init _
  · simpa [he] using h.sound f
  · simp [he, Ref.init]
  · simpa [he] using h.nodup f
  · rw [hholder, if_pos he]
    simp [he, Ref.init]
  · rw [hholder, if_neg he]
    simpa [he] using h.mem f w
  · simp [he, Ref.init]
  · simpa [he] using h.freed f (by simp at hf; omega)
  · simp at hf
    omega
  · simpa [he] using h.unopened f (by simp at hf; omega)

theorem privDropped (h : Counts s) (hp : (s.files f).priv) : Counts (s.privDropped f) := by
  have hm : DomainHolder.file ∈ (s.domains f).kref.holders := (h.mem f .file).mpr hp
  apply h.put (f := f) (w := .file) hp
  · simp
  · intro f' hf'
    simp [hf']
  · simp
  · intro f' hf'
    simp [hf']
  · rintro f' (_ | b | j)
    · by_cases hf' : f' = f <;>
        simp [State.Holder, hf']
    · simp [State.Holder]
    · simp [State.Holder]
  · rfl
  · exact h.frees
  · intro w hw
    simp [hm] at hw
    split_ifs at hw <;> simpa using hw

theorem boMade (h : Counts s) (hp : (s.files f).priv) (size : BitVec 32) :
    Counts (s.boMade f size) := by
  apply h.get (f := f) (w := .bo s.nextBo) (v := .file) (by simp [State.Holder]) hp
  · simp
  · intro f' hf'
    simp [hf']
  · intro f'
    by_cases hf' : f' = f <;> simp [hf']
  · rintro f' (_ | b | j)
    · simp [State.Holder]
    · by_cases hb : b = s.nextBo
      · simp [State.Holder, hb, eq_comm]
      · simp [State.Holder, hb]
        omega
    · simp [State.Holder]
  · rfl
  · intro b hb
    by_cases he : b = s.nextBo
    · simp [he, Ref.init]
    · have := h.frees b (by simp at hb; omega)
      simpa [he] using this
  · exact fun w => id

/-- A BO whose count, file and `frees` stay. -/
theorem setBo (h : Counts s) {g : Bo → Bo} (hfile : (g (s.bos b)).file = (s.bos b).file)
    (hfrees : (g (s.bos b)).frees = 0 ↔ (s.bos b).frees = 0)
    (hcount : 0 < (g (s.bos b)).kref.count ↔ 0 < (s.bos b).kref.count) : Counts (s.setBo b g) := by
  refine h.congr (fun _ => rfl) (fun _ => rfl) ?_ rfl ?_ fun _ => id
  · rintro f (_ | b' | j)
    · simp [State.Holder]
    · by_cases he : b' = b <;> simp [State.Holder, he, hfile, hfrees]
    · simp [State.Holder]
  · intro b' hb'
    by_cases he : b' = b
    · subst he
      simpa [hfrees, hcount] using h.frees b' hb'
    · simpa [he] using h.frees b' hb'

theorem setFile (h : Counts s) {g : File → File}
    (hp : (g (s.files f)).priv = (s.files f).priv) : Counts (s.setFile f g) := by
  refine h.congr (fun _ => rfl) (fun _ => rfl) ?_ rfl h.frees fun _ => id
  rintro f' (_ | b | j)
  · by_cases he : f' = f <;> simp [State.Holder, he, hp]
  · simp [State.Holder]
  · simp [State.Holder]

theorem setDomain (h : Counts s) (d : ℕ) {g : IommuDomain → IommuDomain}
    (hkref : (g (s.domains d)).kref = (s.domains d).kref)
    (hfreed : (g (s.domains d)).freed = (s.domains d).freed) : Counts (s.setDomain d g) := by
  refine h.congr (fun f => ?_) (fun f => ?_) (fun f w => ?_) rfl h.frees fun _ => id
  · by_cases he : f = d <;> simp [he, hkref]
  · by_cases he : f = d <;> simp [he, hfreed]
  · cases w <;> simp [State.Holder]

/-- A job whose domain and `frees` stay. -/
theorem setJob (h : Counts s) {g : Job → Job} (hdomain : (g (s.jobs j)).domain = (s.jobs j).domain)
    (hfrees : (g (s.jobs j)).frees = (s.jobs j).frees) : Counts (s.setJob j g) := by
  refine h.congr (fun _ => rfl) (fun _ => rfl) ?_ rfl h.frees fun _ => id
  rintro f (_ | b | j')
  · simp [State.Holder]
  · simp [State.Holder]
  · by_cases he : j' = j <;> simp [State.Holder, he, hdomain, hfrees]

theorem expect (h : Counts s) {p : Prop} [Decidable p] {x : Fault}
    (hx : ∀ w, x ≠ .putWithout w) : Counts (s.expect p x) := by
  refine h.congr (fun _ => rfl) (fun _ => rfl) (fun f w => ?_) rfl h.frees fun w hw => ?_
  · cases w <;> simp [State.Holder]
  · simp only [State.expect_faults] at hw
    split_ifs at hw
    · exact hw
    · exact (List.mem_cons.mp hw).resolve_left (hx w).symm

theorem drmMmRemoveNode (h : Counts s) (b : ℕ) : Counts (s.drmMmRemoveNode b) :=
  (h.expect (by simp)).setFile rfl

theorem drmMmInsertNode (h : Counts s) (reply : Except Errno ℕ) (b : ℕ) :
    Counts (s.drmMmInsertNode reply b) := by
  cases reply with
  | error e => exact h
  | ok start =>
    unfold State.drmMmInsertNode
    refine Counts.setBo (h.setFile ?_) ?_ ?_ ?_ <;> simp

theorem boHandled (h : Counts s) (hp : (s.files f).priv) (size : BitVec 32) (k : ℕ) :
    Counts (s.boHandled f size k) := by
  apply Counts.boPut
  · refine Counts.setBo ((h.boMade hp size).setFile ?_) ?_ ?_ ?_
    · simp
    · simp
    · simp
    · simp [Ref.init, Ref.get]
  · exact fun hb => absurd hb (Nat.not_succ_le_self s.nextBo)

theorem drmGemShmemFree (h : Counts s) (hb : (s.bos b).frees ≠ 0) : Counts (s.drmGemShmemFree b) :=
  h.setBo (by rfl) (by simp [hb]) (by rfl)

/-- A call that fails before there is a handle, or does not fail. -/
theorem afterCreate (h : Counts s) (hp : (s.files f).priv) (env : CreateEnv) (size : BitVec 32)
    {c : CreateEnding} (hc : ∀ k, c.entered = some k → c = .done k) :
    Counts (s.afterCreate env f size c) := by
  cases c with
  | shmem e => exact h
  | handle e =>
    rw [State.afterCreate]
    apply Counts.drmGemShmemFree
    · apply (h.boMade hp size).boPut
      intro hb
      exact absurd hb (Nat.not_succ_le_self _)
    · rw [State.boPut_bo]
      simp [Ref.init]
  | sgt k e => cases hc k rfl
  | unmapped k => cases hc k rfl
  | truncated k => cases hc k rfl
  | done k =>
    rw [State.afterCreate]
    refine Counts.setBo (Counts.setDomain ((h.boHandled hp size k).drmMmInsertNode _ _) _ ?_ ?_)
      ?_ ?_ ?_ <;> rfl

theorem acquired (h : Counts s) (hw : Wf s) (hp : (s.files f).priv) {job : Job}
    (hfrees : job.frees = 0) (hbs : ∀ b ∈ job.taken, ∃ k, (k, b) ∈ (s.files f).handles) :
    Counts (s.acquired f job) := by
  refine h.get (f := f) (w := .job s.nextJob) (v := .file) (by simp [State.Holder]) hp
    ?_ ?_ ?_ ?_ rfl ?_ fun w => id
  · simp
  · intro f' hf'
    simp [hf']
  · intro f'
    by_cases hf' : f' = f <;> simp [hf']
  · rintro f' (_ | b | j)
    · simp [State.Holder]
    · simp [State.Holder]
    · by_cases hj : j = s.nextJob
      · simp [State.Holder, hj, hfrees, eq_comm]
      · simp [State.Holder, hj]
        omega
  · intro b hb
    have hold := h.frees b hb
    have hcount : ((s.acquired f job).bos b).kref.count =
        (s.bos b).kref.count + job.taken.count b := rfl
    rw [hcount]
    by_cases hm : b ∈ job.taken
    · obtain ⟨k, hk⟩ := hbs b hm
      have hpos := (hw.sound b).pos_of_mem (hw.handle_mem hk)
      exact hold.trans (by omega)
    · rw [List.count_eq_zero_of_not_mem hm]
      exact hold

theorem jobCleaned (h : Counts s) (hw : Wf s) (hj : s.Holder f (.job j)) :
    Counts (s.jobCleaned f j) := by
  have hm : DomainHolder.job j ∈ (s.domains f).kref.holders := (h.mem f _).mpr hj
  have hcomm : ∀ (t : State) (w : BoHolder) b g,
      (t.boPut w b).setJob j g = (t.setJob j g).boPut w b := by
    intro t w b g
    simp only [State.boPut, State.setJob_bos]
    split <;> rfl
  -- the job counts as freed as soon as it has put its domain
  suffices hi : Counts (((s.domainPut (.job j) f).bosPut j
      ((s.jobs j).ins ++ (s.jobs j).outs)).setJob j
        fun job => { job with frees := job.frees + 1 }) by
    have := hi.setJob (j := j) (g := fun job => { job with
      tasksFrees := job.tasksFrees + if job.tasks.isSome then 1 else 0 }) rfl rfl
    rwa [State.setJob_setJob] at this
  refine (State.bosPut_induct (P := fun t =>
    Counts (t.setJob j fun job => { job with frees := job.frees + 1 }) ∧
      ∀ b, t.nextBo ≤ b → (t.bos b).kref.count = 0) j ?_ ?_ _ _ ⟨?_, ?_⟩).1
  · rintro t b ⟨ht, hu⟩
    refine ⟨?_, fun b' hb' => ?_⟩
    · rw [hcomm]
      exact ht.boPut (hu b) _
    · have hzero := hu b' (by simpa using hb')
      by_cases he : b' = b
      · subst he
        simp [State.boPut_bo, Ref.put, hzero]
      · rw [State.boPut_ne he, hzero]
  · rintro t b ⟨ht, hu⟩
    refine ⟨?_, hu⟩
    have := ht.setJob (j := j) (g := fun job => { job with dropped := job.dropped ++ [b] }) rfl rfl
    rwa [State.setJob_setJob] at this ⊢
  · refine h.put hj ?_ ?_ ?_ ?_ ?_ rfl h.frees ?_
    · simp
    · intro f' hf'
      simp [hf']
    · simp
    · intro f' hf'
      simp [hf']
    · rintro f' (_ | b | j')
      · simp [State.Holder]
      · simp [State.Holder]
      · by_cases he : j' = j
        · subst he
          simp [State.Holder]
          intro _ hd _
          exact Option.some.inj (hd.symm.trans hj.2.1)
        · simp [State.Holder, he]
    · intro w hw'
      simpa [hm] using hw'
  · intro b hb
    exact (hw.sound b).count_eq_zero.mpr (hw.unborn b hb)

end Counts

end RocketNpu.Drm
