import Mathlib.Logic.Relation
import Mathlib.Order.Nat
import RocketNpu.Fence.Push

namespace RocketNpu.Fence
open Runs

variable {jobs : ℕ → Spec} {s t : Sys}

/-- Job `j` waits for job `k`: as a dependency it has collected, or before it in the queue of
their entity. -/
def WaitsFor (jobs : ℕ → Spec) (s : Sys) (j k : ℕ) : Prop :=
  k ∈ s.deps j ∨
    (jobs k).file = (jobs j).file ∧ j ∈ s.pushed ∧ k ∈ s.pushed ∧ s.seq k < s.seq j

/-- The push of the job is not done yet. -/
def PushPc.early : PushPc → Bool
  | .called | .locked | .acquiring _ => true
  | .attaching _ | .leaving | .returned => false

/-- Only jobs that have been pushed are waited for, and by jobs pushed after them. -/
structure Ranked (s : Sys) : Prop where
  early : ∀ j, (s.pc j).early = true → j ∉ s.pushed
  attaching : ∀ j todo, s.pc j = .attaching todo → j ∈ s.pushed
  seq_le : ∀ k ∈ s.pushed, s.seq k ≤ s.pushed.length
  resv : ∀ b, ∀ f ∈ s.resv b, f.1 ∈ s.pushed
  deps : ∀ j, ∀ k ∈ s.deps j, k ∈ s.pushed ∧ (j ∈ s.pushed → s.seq k < s.seq j)

theorem Ranked.init : Ranked .init where
  early _ _ := by simp [Sys.init]
  attaching _ _ h := by simp [Sys.init] at h
  seq_le := by simp [Sys.init]
  resv := by simp [Sys.init]
  deps := by simp [Sys.init]

/-- A step of a push that only changes its place, locks or progress. -/
theorem Ranked.goto (h : Ranked s) {j : ℕ} {p : PushPc} (hearly : p.early = true → j ∉ s.pushed)
    (hatt : ∀ todo, p = .attaching todo → j ∈ s.pushed) : Ranked (s.goto j p) where
  early i hi := by
    by_cases hij : i = j
    · subst hij
      exact hearly (by simpa using hi)
    · exact h.early i (by simpa [hij] using hi)
  attaching i todo hi := by
    rcases pc_cases hi with ⟨rfl, hp⟩ | ⟨-, hold⟩
    · exact hatt todo hp
    · exact h.attaching i todo hold
  seq_le := h.seq_le
  resv := h.resv
  deps := h.deps

theorem Ranked.locks (h : Ranked s) (resvLock : ℕ → Option ℕ) (schedLock : Option ℕ) :
    Ranked { s with resvLock, schedLock } := ⟨h.early, h.attaching, h.seq_le, h.resv, h.deps⟩

theorem mem_waitedFor {usage : Usage} {fences : List (ℕ × Usage)} {k : ℕ}
    (h : k ∈ waitedFor usage fences) : ∃ f ∈ fences, f.1 = k := by
  obtain ⟨f, hf, rfl⟩ := List.mem_map.mp h
  exact ⟨f, (List.mem_filter.mp hf).1, rfl⟩

/-- New dependencies of a job that is not pushed stand for pushed jobs. -/
theorem Ranked.collect (h : Ranked s) {j b : ℕ} {usage : Usage} {found : List ℕ}
    (hj : j ∉ s.pushed) (hfound : ∀ k ∈ found, k ∈ waitedFor usage (s.resv b)) :
    Ranked { s with deps := Function.update s.deps j (found ++ s.deps j) } where
  early := h.early
  attaching := h.attaching
  seq_le := h.seq_le
  resv := h.resv
  deps i k hk := by
    by_cases hij : i = j
    · subst hij
      refine ⟨?_, fun hi => absurd hi hj⟩
      simp only [Function.update_self, List.mem_append] at hk
      rcases hk with hk | hk
      · obtain ⟨f, hf, rfl⟩ := mem_waitedFor (hfound k hk)
        exact h.resv b f hf
      · exact (h.deps i k hk).1
    · exact h.deps i k (by simpa [hij] using hk)

theorem Ranked.push (h : Ranked s) {j : ℕ} (hj : j ∉ s.pushed) :
    Ranked ({ s with
      pushed := j :: s.pushed
      seq := Function.update s.seq j (s.pushed.length + 1)
      schedLock := none }.goto j (.attaching (jobs j).outs)) where
  early i hi := by
    by_cases hij : i = j
    · simp [hij, PushPc.early] at hi
    · have hold := h.early i (by simpa [hij] using hi)
      simp [hij, hold]
  attaching i todo hi := by
    rcases pc_cases hi with ⟨rfl, -⟩ | ⟨-, hold⟩
    · exact List.mem_cons_self
    · exact List.mem_cons_of_mem j (h.attaching i todo hold)
  seq_le k hk := by
    by_cases hkj : k = j
    · simp [hkj]
    · have hold := h.seq_le k (by simpa [hkj] using hk)
      simpa [hkj] using hold.trans (Nat.le_succ _)
  resv b f hf := List.mem_cons_of_mem j (h.resv b f hf)
  deps i k hk := by
    obtain ⟨hpushed, hlt⟩ := h.deps i k hk
    have hkj : k ≠ j := fun hkj => hj (hkj ▸ hpushed)
    refine ⟨List.mem_cons_of_mem j hpushed, fun hi => ?_⟩
    show Function.update s.seq j (s.pushed.length + 1) k < Function.update s.seq j _ i
    rw [Function.update_of_ne hkj]
    by_cases hij : i = j
    · rw [hij, Function.update_self]
      exact Nat.lt_succ_of_le (h.seq_le k hpushed)
    · rw [Function.update_of_ne hij]
      exact hlt (by simpa [hij] using hi)

theorem mem_addFence {j : ℕ} {l : List (ℕ × Usage)} {f : ℕ × Usage}
    (hf : f ∈ addFence jobs s j l) : f = (j, .write) ∨ f ∈ l := by
  induction l with
  | nil => exact .inl (by simpa [addFence] using hf)
  | cons g l ih =>
    unfold addFence at hf
    split_ifs at hf
    · rcases List.mem_cons.mp hf with h | h
      · exact .inl h
      · exact .inr (List.mem_cons_of_mem g h)
    · rcases List.mem_cons.mp hf with h | h
      · exact .inr (h ▸ List.mem_cons_self)
      · rcases ih h with h | h
        · exact .inl h
        · exact .inr (List.mem_cons_of_mem g h)

theorem Ranked.attach (h : Ranked s) {j b : ℕ} (hj : j ∈ s.pushed) :
    Ranked { s with resv := Function.update s.resv b (addFence jobs s j (s.resv b)) } where
  early := h.early
  attaching := h.attaching
  seq_le := h.seq_le
  resv c f hf := by
    by_cases hcb : c = b
    · subst hcb
      rcases mem_addFence (by simpa using hf) with rfl | hold
      · exact hj
      · exact h.resv c f hold
    · exact h.resv c f (by simpa [hcb] using hf)
  deps := h.deps

theorem Ranked.move (h : Ranked s) {e : Act} (hm : Move jobs s e t) : Ranked t := by
  cases hm with
  | lockFailed hpc => exact h.goto (by simp [PushPc.early]) (by simp)
  | locked hpc hfree =>
    exact (h.locks _ s.schedLock).goto (fun _ => h.early _ (by simp [hpc, PushPc.early])) (by simp)
  | entered hpc hlock =>
    exact (h.locks s.resvLock _).goto (fun _ => h.early _ (by simp [hpc, PushPc.early])) (by simp)
  | @acquired j _ _ _ hpc =>
    have hj : j ∉ s.pushed := h.early j (by simp [hpc, PushPc.early])
    exact (h.collect hj fun _ hk => hk).goto (fun _ => hj) (by simp)
  | @acquireFailed j _ _ _ _ hpc =>
    have hj : j ∉ s.pushed := h.early j (by simp [hpc, PushPc.early])
    exact ((h.collect hj fun _ hk => List.mem_of_mem_take hk).locks s.resvLock none).goto
      (by simp [PushPc.early]) (by simp)
  | pushed hpc => exact h.push (h.early _ (by simp [hpc, PushPc.early]))
  | attachedAll hpc => exact h.goto (by simp [PushPc.early]) (by simp)
  | attached hpc =>
    have hj := h.attaching _ _ hpc
    exact (h.attach hj).goto (by simp [PushPc.early]) (fun _ _ => hj)
  | unlocked hpc =>
    exact (h.locks _ s.schedLock).goto (by simp [PushPc.early]) (by simp)
  | started _ _ _ => exact ⟨h.early, h.attaching, h.seq_le, h.resv, h.deps⟩
  | finished _ => exact ⟨h.early, h.attaching, h.seq_le, h.resv, h.deps⟩
  | prepared _ => exact h

theorem Reaches.ranked (h : Reaches jobs s) : Ranked s := by
  refine h.invariant ?_ fun _ _ _ hs hstep => hs.move hstep.move
  rintro _ rfl
  exact Ranked.init

theorem Ranked.waitsFor (h : Ranked s) {j k : ℕ} (hw : WaitsFor jobs s j k) :
    k ∈ s.pushed ∧ (j ∈ s.pushed → s.seq k < s.seq j) := by
  rcases hw with hdep | ⟨-, -, hk, hlt⟩
  · exact h.deps j k hdep
  · exact ⟨hk, fun _ => hlt⟩

/-- A chain of waiting jobs goes back in the order of pushes. -/
theorem Ranked.chain (h : Ranked s) {j k : ℕ} (hw : Relation.TransGen (WaitsFor jobs s) j k) :
    k ∈ s.pushed ∧ (j ∈ s.pushed → s.seq k < s.seq j) := by
  induction hw with
  | single hw => exact h.waitsFor hw
  | tail _ hw ih =>
    obtain ⟨hmid, hlt⟩ := ih
    obtain ⟨hk, hstep⟩ := h.waitsFor hw
    exact ⟨hk, fun hj => (hstep hmid).trans (hlt hj)⟩

/-- No job waits for itself through any chain of jobs. -/
theorem waitsFor_acyclic (h : Reaches jobs s) (j : ℕ) :
    ¬ Relation.TransGen (WaitsFor jobs s) j j := by
  intro hcycle
  obtain ⟨hj, hlt⟩ := h.ranked.chain hcycle
  exact lt_irrefl _ (hlt hj)

/-- Two files that write the same BO: the push of the second job waits for the first. -/
def twoWriters (j : ℕ) : Spec := ⟨j, [], [0]⟩

theorem waitsFor_acyclic_twoWriters :
    ∃ s, WaitsFor twoWriters s 1 0 ∧ ¬ Relation.TransGen (WaitsFor twoWriters s) 1 1 := by
  have hend : ([.lock 0 true, .enter 0, .acquire 0 none, .push 0, .attach 0, .attach 0, .unlock 0,
      .lock 1 true, .enter 1, .acquire 1 none].foldlM
        (fun s e => Act.run twoWriters e s) Sys.init).map (fun s => s.deps 1) =
      some [0] := rfl
  obtain ⟨s, hs, hdeps⟩ := Option.map_eq_some_iff.mp hend
  have h0 : Reaches twoWriters .init := .start rfl
  refine ⟨s, .inl (by simp [hdeps]), waitsFor_acyclic (h0.foldlM (fun _ _ _ h => h) hs) 1⟩

end RocketNpu.Fence
