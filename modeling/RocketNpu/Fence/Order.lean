import RocketNpu.Fence.Acyclic

namespace RocketNpu.Fence
open Runs

variable {jobs : ℕ → Spec} {s t : Sys}

/-- The push holds its reservation locks. -/
def PushPc.holding : PushPc → Bool
  | .called | .returned => false
  | .locked | .acquiring _ | .attaching _ | .leaving => true

structure Held (jobs : ℕ → Spec) (s : Sys) : Prop where
  lock : ∀ j, (s.pc j).holding = true → ∀ b ∈ (jobs j).bos, s.resvLock b = some j
  todo : ∀ j todo, s.pc j = .attaching todo → ∀ b ∈ todo, b ∈ (jobs j).outs

theorem Held.init : Held jobs .init where
  lock _ h := by simp [Sys.init, PushPc.holding] at h
  todo _ _ h := by simp [Sys.init] at h

theorem Held.congr (h : Held jobs s) (hpc : t.pc = s.pc) (hlock : t.resvLock = s.resvLock) :
    Held jobs t := by
  refine ⟨fun j hj => ?_, fun j todo hj => ?_⟩
  · rw [hlock]
    rw [hpc] at hj
    exact h.lock j hj
  · rw [hpc] at hj
    exact h.todo j todo hj

theorem Held.goto (h : Held jobs s) {j : ℕ} {p : PushPc}
    (hhold : p.holding = true → (s.pc j).holding = true)
    (htodo : ∀ todo, p = .attaching todo → ∀ b ∈ todo, b ∈ (jobs j).outs) :
    Held jobs (s.goto j p) where
  lock i hi b hb := by
    by_cases hij : i = j
    · subst hij
      exact h.lock i (hhold (by simpa using hi)) b hb
    · exact h.lock i (by simpa [hij] using hi) b hb
  todo i todo hi := by
    rcases pc_cases hi with ⟨rfl, hp⟩ | ⟨-, hold⟩
    · exact htodo todo hp
    · exact h.todo i todo hold

theorem Held.locked (h : Held jobs s) {j : ℕ}
    (hfree : ∀ b ∈ (jobs j).bos, s.resvLock b = none) :
    Held jobs ({ s with
      resvLock := fun b => if b ∈ (jobs j).bos then some j else s.resvLock b }.goto j
        .locked) where
  lock i hi b hb := by
    show (if b ∈ (jobs j).bos then some j else s.resvLock b) = some i
    by_cases hij : i = j
    · subst hij
      simp [hb]
    · have hold := h.lock i (by simpa [hij] using hi) b hb
      have hbj : b ∉ (jobs j).bos := fun hbj => by simp [hfree b hbj] at hold
      simp [hbj, hold]
  todo i todo hi := by
    rcases pc_cases hi with ⟨-, hp⟩ | ⟨-, hold⟩
    · cases hp
    · exact h.todo i todo hold

theorem Held.unlocked (h : Held jobs s) {j : ℕ} (hpc : s.pc j = .leaving) :
    Held jobs ({ s with
      resvLock := fun b => if b ∈ (jobs j).bos then none else s.resvLock b }.goto j
        .returned) where
  lock i hi b hb := by
    show (if b ∈ (jobs j).bos then none else s.resvLock b) = some i
    by_cases hij : i = j
    · simp [hij, PushPc.holding] at hi
    · have hold := h.lock i (by simpa [hij] using hi) b hb
      have hbj : b ∉ (jobs j).bos := by
        intro hbj
        have hj := h.lock j (by simp [hpc, PushPc.holding]) b hbj
        exact hij (Option.some.inj (hold.symm.trans hj))
      simp [hbj, hold]
  todo i todo hi := by
    rcases pc_cases hi with ⟨-, hp⟩ | ⟨-, hold⟩
    · cases hp
    · exact h.todo i todo hold

theorem Held.move (h : Held jobs s) {e : Act} (hm : Move jobs s e t) : Held jobs t := by
  cases hm with
  | lockFailed _ => exact h.goto (by simp [PushPc.holding]) (by simp)
  | locked _ hfree => exact h.locked hfree
  | @entered j hpc _ =>
    have hs : Held jobs { s with schedLock := some j } := h.congr rfl rfl
    exact hs.goto (fun _ => by simp [hpc, PushPc.holding]) (by simp)
  | @acquired j b isWrite _ hpc =>
    have hs : Held jobs { s with
        deps := Function.update s.deps j
          (waitedFor (usageRw isWrite) (s.resv b) ++ s.deps j) } := h.congr rfl rfl
    exact hs.goto (fun _ => by simp [hpc, PushPc.holding]) (by simp)
  | @acquireFailed j b k isWrite _ hpc =>
    have hs : Held jobs { s with
        deps := Function.update s.deps j
          ((waitedFor (usageRw isWrite) (s.resv b)).take k ++ s.deps j)
        schedLock := none } := h.congr rfl rfl
    exact hs.goto (fun _ => by simp [hpc, PushPc.holding]) (by simp)
  | @pushed j hpc =>
    have hs : Held jobs { s with
        pushed := j :: s.pushed
        seq := Function.update s.seq j (s.pushed.length + 1)
        schedLock := none } := h.congr rfl rfl
    refine hs.goto (fun _ => by simp [hpc, PushPc.holding]) fun todo htodo => ?_
    obtain rfl := PushPc.attaching.inj htodo
    exact fun _ hb => hb
  | attachedAll hpc => exact h.goto (fun _ => by simp [hpc, PushPc.holding]) (by simp)
  | @attached j b todo hpc =>
    have hs : Held jobs { s with
        resv := Function.update s.resv b (addFence jobs s j (s.resv b)) } := h.congr rfl rfl
    refine hs.goto (fun _ => by simp [hpc, PushPc.holding]) fun rest hrest c hc => ?_
    obtain rfl := PushPc.attaching.inj hrest
    exact h.todo j _ hpc c (List.mem_cons_of_mem b hc)
  | unlocked hpc => exact h.unlocked hpc
  | started _ _ _ => exact h.congr rfl rfl
  | finished _ => exact h.congr rfl rfl
  | prepared _ => exact h

/-- What no step takes back. -/
structure Grows (s t : Sys) : Prop where
  pushed : ∀ k ∈ s.pushed, k ∈ t.pushed ∧ t.seq k = s.seq k
  late : ∀ k ∈ t.pushed, k ∉ s.pushed → ∀ j ∈ s.pushed, t.seq j < t.seq k
  finished : ∀ k, s.finished k = true → t.finished k = true
  deps : ∀ j ∈ s.pushed, t.deps j = s.deps j

theorem Grows.of_same (hp : t.pushed = s.pushed) (hq : t.seq = s.seq)
    (hf : ∀ k, s.finished k = true → t.finished k = true)
    (hd : ∀ j ∈ s.pushed, t.deps j = s.deps j) : Grows s t where
  pushed k hk := ⟨hp ▸ hk, congrFun hq k⟩
  late _ hk hnew := absurd (hp ▸ hk) hnew
  finished := hf
  deps := hd

theorem Grows.push (hr : Ranked s) {j : ℕ} (hj : j ∉ s.pushed) (p : PushPc) :
    Grows s ({ s with
      pushed := j :: s.pushed
      seq := Function.update s.seq j (s.pushed.length + 1)
      schedLock := none }.goto j p) where
  pushed k hk := by
    have hkj : k ≠ j := fun hkj => hj (hkj ▸ hk)
    exact ⟨List.mem_cons_of_mem j hk, by simp [hkj]⟩
  late k hk hnew i hi := by
    obtain rfl : k = j := by simpa [hnew] using hk
    have hik : i ≠ k := fun hik => hj (hik ▸ hi)
    simpa [hik] using Nat.lt_succ_of_le (hr.seq_le i hi)
  finished _ h := h
  deps _ _ := rfl

theorem Move.grows (hr : Ranked s) {e : Act} (hm : Move jobs s e t) : Grows s t := by
  have hdeps {j : ℕ} (hj : (s.pc j).early = true) (found : List ℕ) (i : ℕ)
      (hi : i ∈ s.pushed) : Function.update s.deps j (found ++ s.deps j) i = s.deps i := by
    have hij : i ≠ j := fun hij => hr.early j hj (hij ▸ hi)
    exact Function.update_of_ne hij _ _
  cases hm with
  | acquired hpc =>
    exact .of_same rfl rfl (fun _ h => h) (hdeps (by simp [hpc, PushPc.early]) _)
  | acquireFailed hpc =>
    exact .of_same rfl rfl (fun _ h => h) (hdeps (by simp [hpc, PushPc.early]) _)
  | @pushed j hpc => exact .push hr (hr.early j (by simp [hpc, PushPc.early])) _
  | @finished j hj =>
    refine .of_same rfl rfl (fun k hk => ?_) fun _ _ => rfl
    by_cases hkj : k = j
    · simp [hkj]
    · simpa [hkj] using hk
  | _ => exact .of_same rfl rfl (fun _ h => h) fun _ _ => rfl

theorem Ready.mono (hg : Grows s t) {j : ℕ} (hj : j ∈ s.pushed) (h : Ready jobs s j) :
    Ready jobs t j := by
  constructor
  · intro d hd
    rw [hg.deps j hj] at hd
    exact hg.finished d (h.1 d hd)
  · intro k hk hfile hlt
    by_cases hold : k ∈ s.pushed
    · rw [(hg.pushed k hold).2, (hg.pushed j hj).2] at hlt
      exact hg.finished k (h.2 k hold hfile hlt)
    · exact absurd hlt (hg.late k hk hold j hj).asymm

/-- Job `k` is finished, or one of the jobs in `P` stands for it: a pushed job of the same
entity that is not earlier. -/
def Stands (jobs : ℕ → Spec) (s : Sys) (P : ℕ → Prop) (k : ℕ) : Prop :=
  s.finished k = true ∨
    ∃ m, P m ∧ m ∈ s.pushed ∧ (jobs m).file = (jobs k).file ∧ s.seq k ≤ s.seq m

theorem Stands.imp {P Q : ℕ → Prop} (hPQ : ∀ m, P m → Q m) {k : ℕ}
    (h : Stands jobs s P k) : Stands jobs s Q k :=
  Or.imp_right (fun ⟨m, hm, hrest⟩ => ⟨m, hPQ m hm, hrest⟩) h

theorem Stands.mono (hg : Grows s t) {P Q : ℕ → Prop} (hPQ : ∀ m, P m → Q m) {k : ℕ}
    (hk : k ∈ s.pushed) (h : Stands jobs s P k) : Stands jobs t Q k := by
  rcases h with h | ⟨m, hm, hpushed, hfile, hle⟩
  · exact .inl (hg.finished k h)
  · obtain ⟨hpushed', hseq⟩ := hg.pushed m hpushed
    refine .inr ⟨m, hPQ m hm, hpushed', hfile, ?_⟩
    rwa [hseq, (hg.pushed k hk).2]

/-- The scheduler: started jobs were ready, finished jobs were started. -/
structure Sched (jobs : ℕ → Spec) (s : Sys) : Prop where
  seq_inj : ∀ k ∈ s.pushed, ∀ m ∈ s.pushed, s.seq k = s.seq m → k = m
  started : ∀ j, s.started j = true → j ∈ s.pushed ∧ Ready jobs s j
  finished : ∀ j, s.finished j = true → s.started j = true

theorem Sched.init : Sched jobs .init where
  seq_inj := by simp [Sys.init]
  started _ h := by simp [Sys.init] at h
  finished _ h := by simp [Sys.init] at h

theorem Sched.of_grows (h : Sched jobs s) (hg : Grows s t) (hp : t.pushed = s.pushed)
    (hs : t.started = s.started) (hf : t.finished = s.finished) : Sched jobs t where
  seq_inj k hk m hm heq := by
    rw [hp] at hk hm
    rw [(hg.pushed k hk).2, (hg.pushed m hm).2] at heq
    exact h.seq_inj k hk m hm heq
  started j hj := by
    rw [hs] at hj
    obtain ⟨hpushed, hready⟩ := h.started j hj
    exact ⟨(hg.pushed j hpushed).1, hready.mono hg hpushed⟩
  finished j hj := by
    rw [hf] at hj
    rw [hs]
    exact h.finished j hj

theorem Sched.move (hr : Ranked s) (h : Sched jobs s) {e : Act} (hm : Move jobs s e t) :
    Sched jobs t := by
  have hg := hm.grows hr
  cases hm with
  | @pushed j hpc =>
    have hj : j ∉ s.pushed := hr.early j (by simp [hpc, PushPc.early])
    refine ⟨fun k hk m hm heq => ?_, fun i hi => ?_, h.finished⟩
    · by_cases hks : k ∈ s.pushed
      · by_cases hms : m ∈ s.pushed
        · rw [(hg.pushed k hks).2, (hg.pushed m hms).2] at heq
          exact h.seq_inj k hks m hms heq
        · exact absurd heq (hg.late m hm hms k hks).ne
      · by_cases hms : m ∈ s.pushed
        · exact absurd heq (hg.late k hk hks m hms).ne'
        · obtain rfl : k = j := by simpa [hks] using hk
          obtain rfl : m = k := by simpa [hms] using hm
          rfl
    · obtain ⟨hpushed, hready⟩ := h.started i hi
      exact ⟨List.mem_cons_of_mem j hpushed, hready.mono hg hpushed⟩
  | @started j hpushed hnew hready =>
    refine ⟨h.seq_inj, fun i hi => ?_, fun i hi => ?_⟩
    · by_cases hij : i = j
      · subst hij
        exact ⟨hpushed, hready.mono hg hpushed⟩
      · obtain ⟨hi', hready'⟩ := h.started i (by simpa [hij] using hi)
        exact ⟨hi', hready'.mono hg hi'⟩
    · by_cases hij : i = j
      · simp [hij]
      · simpa [hij] using h.finished i hi
  | @finished j hj =>
    refine ⟨h.seq_inj, fun i hi => ?_, fun i hi => ?_⟩
    · obtain ⟨hi', hready⟩ := h.started i hi
      exact ⟨hi', hready.mono hg hi'⟩
    · by_cases hij : i = j
      · exact hij ▸ hj
      · exact h.finished i (by simpa [hij] using hi)
  | _ => exact h.of_grows hg rfl rfl rfl

/-- The jobs of an entity finish in the order of their pushes. -/
theorem Sched.finished_of_later (h : Sched jobs s) {k m : ℕ} (hk : k ∈ s.pushed)
    (hm : m ∈ s.pushed) (hfile : (jobs m).file = (jobs k).file) (hle : s.seq k ≤ s.seq m)
    (hdone : s.finished m = true) : s.finished k = true := by
  rcases hle.eq_or_lt with heq | hlt
  · exact h.seq_inj k hk m hm heq ▸ hdone
  · have hready := (h.started m (h.finished m hdone)).2
    exact hready.2 k hk hfile.symm hlt

/-- When all that stands for a job is finished, so is the job. -/
theorem Sched.finished_of_stands (h : Sched jobs s) {P : ℕ → Prop} {k : ℕ} (hk : k ∈ s.pushed)
    (hP : ∀ m, P m → s.finished m = true) (hs : Stands jobs s P k) : s.finished k = true := by
  rcases hs with hdone | ⟨m, hm, hpushed, hfile, hle⟩
  · exact hdone
  · exact h.finished_of_later hk hpushed hfile hle (hP m hm)

end RocketNpu.Fence
