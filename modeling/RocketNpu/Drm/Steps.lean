import RocketNpu.Drm.CreateBo

namespace RocketNpu.Drm
open Refcount Calls Call

variable {s t : State} {b f j k : ℕ} {w : BoHolder} {bs : List ℕ}

namespace Wf

theorem domainGet (h : Wf s) (w : DomainHolder) (f : ℕ) : Wf (s.domainGet w f) :=
  h.setDomain _ _

theorem domainPut (h : Wf s) (w : DomainHolder) (f : ℕ) : Wf (s.domainPut w f) :=
  (h.expect _ _).setDomain _ _

theorem drmMmRemoveNode (h : Wf s) (b : ℕ) : Wf (s.drmMmRemoveNode b) :=
  (h.expect _ _).setFile rfl id

theorem drmMmInsertNode (h : Wf s) (reply : Except Errno ℕ) (b : ℕ) :
    Wf (s.drmMmInsertNode reply b) := by
  cases reply with
  | error e => exact h
  | ok start =>
    unfold State.drmMmInsertNode
    refine Wf.setBo (Wf.setFile h ?_ id) ?_ ?_ ?_ <;> rfl

theorem drmGemShmemFree (h : Wf s) (b : ℕ) : Wf (s.drmGemShmemFree b) :=
  h.setBo (by rfl) (by rfl) (by rfl)

/-- No table and no job names the new object. -/
theorem drmGemShmemCreate (h : Wf s) (f : ℕ) (size : BitVec 32) :
    Wf (s.drmGemShmemCreate f size) := by
  have hold : (s.bos s.nextBo).kref.holders = [] := h.unborn s.nextBo (Nat.le_refl _)
  have hnone : ∀ f k, (k, s.nextBo) ∉ (s.files f).handles := by
    intro f k hm
    have := h.handle_mem hm
    rw [hold] at this
    exact absurd this List.not_mem_nil
  refine ⟨⟨fun b => ?_, fun b hc => ?_, fun b hb => ?_, h.future, h.ready, fun j hp b => ?_⟩,
    fun f' k b he => ?_, fun b k => ?_, h.unopened⟩ <;> by_cases hb' : b = s.nextBo
  · subst hb'
    simpa using Ref.Sound.init _
  · simpa [hb'] using h.sound b
  · subst hb'
    simp
  · simp only [State.drmGemShmemCreate, Function.update_of_ne hb'] at hc ⊢
    exact h.live b hc
  · subst hb'
    exact absurd hb (Nat.not_succ_le_self _)
  · simpa [hb'] using h.unborn b (by simp at hb; omega)
  · subst hb'
    have := h.held j hp s.nextBo
    rw [hold] at this
    exact Nat.le_trans this (Nat.zero_le _)
  · simpa [hb'] using h.held j hp b
  · subst hb'
    exact absurd he (hnone f' k)
  · simpa [hb'] using h.entry f' k b he
  · subst hb'
    simp [Ref.init, List.count_eq_zero_of_not_mem (hnone f k)]
  · simpa [hb'] using h.handle b k

/-- A handle enters the table together with its reference. -/
theorem addHandle (h : Wf s) (hfile : (s.bos b).file = f) (hc : 0 < (s.bos b).kref.count)
    (hb : b < s.nextBo) (hp : (s.files f).priv) :
    Wf ((s.setFile f fun file => { file with handles := (k, b) :: file.handles }).setBo b
      fun bo => { bo with kref := bo.kref.get (.handle k) }) := by
  have hopen : ∀ f', s.nextFile ≤ f' → f' ≠ f := by
    rintro f' hn rfl
    simpa [hp] using (h.unopened f' hn).2
  refine ⟨⟨fun b' => ?_, fun b' hc' => ?_, fun b' hb' => ?_, h.future, h.ready,
    fun j hp b' => ?_⟩, fun f' k' b' he => ?_, fun b' k' => ?_,
    fun f' hn => by simpa [hopen f' hn] using h.unopened f' hn⟩ <;> by_cases hbb : b' = b
  · subst hbb
    simpa using (h.sound b').get _
  · simpa [hbb] using h.sound b'
  · subst hbb
    simpa using h.live b' hc
  · simpa [hbb] using h.live b' (by simpa [hbb] using hc')
  · subst hbb
    exact absurd hb (Nat.not_lt.mpr hb')
  · simpa [hbb] using h.unborn b' hb'
  · subst hbb
    exact Nat.le_trans (h.held j hp b') (by simp [Ref.get])
  · simpa [hbb] using h.held j hp b'
  · subst hbb
    by_cases hf : f' = f
    · simpa [hf] using hfile
    · simpa [hf] using h.entry f' k' b' (by simpa [hf] using he)
  · by_cases hf : f' = f
    · subst hf
      simpa [hbb] using h.entry f' k' b' (by simpa [hbb] using he)
    · simpa [hbb] using h.entry f' k' b' (by simpa [hf] using he)
  · subst hbb
    have heq := h.handle b' k'
    rw [hfile] at heq
    by_cases hk : k = k' <;> simp [hfile, Ref.get, heq, hk]
  · by_cases hf : (s.bos b').file = f
    · have heq := h.handle b' k'
      rw [hf] at heq
      simp [hbb, hf, heq, Ne.symm hbb]
    · simpa [hbb, hf] using h.handle b' k'

end Wf

theorem Wf.boMade (h : Wf s) (f : ℕ) (size : BitVec 32) : Wf (s.boMade f size) :=
  (h.drmGemShmemCreate f size).domainGet _ _

theorem Wf.boHandled (h : Wf s) (hp : (s.files f).priv) (size : BitVec 32) (k : ℕ) :
    Wf (s.boHandled f size k) := by
  have hmade := h.boMade f size
  refine Wf.boPut (Wf.addHandle hmade ?_ ?_ ?_ hp) ?_ (by simp) (by simp)
  · simp
  · simp [Ref.init]
  · simp
  · simp [Ref.init, Ref.get]

theorem Wf.afterCreate (h : Wf s) (hp : (s.files f).priv) (env : CreateEnv) (size : BitVec 32)
    (c : CreateEnding) : Wf (s.afterCreate env f size c) := by
  have hinserted : ∀ k, Wf (s.boInserted env f size k) := fun k =>
    (h.boHandled hp size k).drmMmInsertNode _ _
  have hmapped : ∀ k, Wf (s.boMapped env f size k) := fun k => (hinserted k).setDomain _ _
  cases c with
  | shmem e => exact h
  | handle e =>
    refine ((h.boMade f size).boPut ?_ (by simp) (by simp)).drmGemShmemFree _
    simp [Ref.init]
  | sgt k e => exact (h.boHandled hp size k).drmGemShmemFree _
  | unmapped k => exact ((hinserted k).drmMmRemoveNode _).drmGemShmemFree _
  | truncated k => exact ((hmapped k).drmMmRemoveNode _).drmGemShmemFree _
  | done k =>
    rw [State.afterCreate]
    refine Wf.setBo (hmapped k) ?_ ?_ ?_ <;> rfl

theorem Wf.createBo (h : Wf s) (hp : (s.files f).priv) (env : CreateEnv) (size : BitVec 32) :
    Wf (rocketIoctlCreateBo env f size s).2 := by
  rw [rocketIoctlCreateBo_eq]
  exact h.afterCreate hp env size _

end RocketNpu.Drm
