import RocketNpu.Fence.Hazards

namespace RocketNpu.Fence
open Runs

variable {jobs : ℕ → Spec} {s t : Sys}

/-- Fences stand for writers, and so a dependency links its job to an earlier one. -/
structure Writers (jobs : ℕ → Spec) (s : Sys) : Prop where
  resv : ∀ b, ∀ f ∈ s.resv b, b ∈ (jobs f.1).outs
  todo : ∀ j todo, s.pc j = .acquiring todo → ∀ b ∈ todo.map Prod.fst, b ∈ (jobs j).bos
  deps : ∀ j, ∀ d ∈ s.deps j, Links jobs d j

theorem Writers.init : Writers jobs .init := by
  refine ⟨?_, ?_, ?_⟩ <;> simp [Sys.init]

theorem Writers.of_new (h : Writers jobs s)
    (hresv : ∀ b, ∀ f ∈ t.resv b, f ∈ s.resv b ∨ b ∈ (jobs f.1).outs)
    (htodo : ∀ j todo, t.pc j = .acquiring todo →
      s.pc j = .acquiring todo ∨ ∀ b ∈ todo.map Prod.fst, b ∈ (jobs j).bos)
    (hdeps : ∀ j, ∀ d ∈ t.deps j, d ∈ s.deps j ∨ Links jobs d j) : Writers jobs t where
  resv b f hf := (hresv b f hf).elim (h.resv b f) id
  todo j todo hj := (htodo j todo hj).elim (h.todo j todo) id
  deps j d hd := (hdeps j d hd).elim (h.deps j d) id

theorem Writers.found (h : Writers jobs s) {j b : ℕ} {isWrite : Bool} {todo : List (ℕ × Bool)}
    (hpc : s.pc j = .acquiring ((b, isWrite) :: todo)) {usage : Usage} {d : ℕ}
    (hd : d ∈ waitedFor usage (s.resv b)) : Links jobs d j := by
  obtain ⟨f, hf, rfl⟩ := mem_waitedFor hd
  exact .inr ⟨b, h.resv b f hf, h.todo j _ hpc b (by simp)⟩

theorem Writers.move (hheld : Held jobs s) (h : Writers jobs s) {e : Act}
    (hm : Move jobs s e t) : Writers jobs t := by
  have hgoto {i : ℕ} {p : PushPc} (hp : ∀ todo, p = .acquiring todo →
      ∀ b ∈ todo.map Prod.fst, b ∈ (jobs i).bos) (j : ℕ) (todo : List (ℕ × Bool))
      (hj : Function.update s.pc i p j = .acquiring todo) :
      s.pc j = .acquiring todo ∨ ∀ b ∈ todo.map Prod.fst, b ∈ (jobs j).bos := by
    rcases pc_cases hj with ⟨rfl, hpt⟩ | ⟨-, hold⟩
    · exact .inr (hp todo hpt)
    · exact .inl hold
  have hdeps {i : ℕ} {found : List ℕ} (hfound : ∀ d ∈ found, Links jobs d i) (j d : ℕ)
      (hd : d ∈ Function.update s.deps i (found ++ s.deps i) j) :
      d ∈ s.deps j ∨ Links jobs d j := by
    by_cases hji : j = i
    · subst hji
      rcases List.mem_append.mp (by simpa using hd) with hd | hd
      · exact .inr (hfound d hd)
      · exact .inl hd
    · exact .inl (by simpa [hji] using hd)
  cases hm with
  | entered _ _ =>
    refine h.of_new (fun _ _ hf => .inl hf) (hgoto fun todo htodo b hb => ?_) fun _ _ hd => .inl hd
    obtain rfl := PushPc.acquiring.inj htodo
    simpa [Spec.bos] using hb
  | acquired hpc =>
    refine h.of_new (fun _ _ hf => .inl hf) (hgoto fun todo htodo b hb => ?_)
      (hdeps fun d hd => h.found hpc hd)
    obtain rfl := PushPc.acquiring.inj htodo
    exact h.todo _ _ hpc b (List.mem_cons_of_mem _ hb)
  | acquireFailed hpc =>
    exact h.of_new (fun _ _ hf => .inl hf) (hgoto (by simp))
      (hdeps fun d hd => h.found hpc (List.mem_of_mem_take hd))
  | @attached j c todo hpc =>
    refine h.of_new (fun b f hf => ?_) (hgoto (by simp)) fun _ _ hd => .inl hd
    by_cases hbc : b = c
    · subst hbc
      rcases mem_addFence (by simpa using hf) with rfl | hold
      · exact .inr (hheld.todo j _ hpc b List.mem_cons_self)
      · exact .inl hold
    · exact .inl (by simpa [hbc] using hf)
  | started _ _ _ => exact ⟨h.resv, h.todo, h.deps⟩
  | finished _ => exact ⟨h.resv, h.todo, h.deps⟩
  | prepared _ => exact h
  | _ => exact h.of_new (fun _ _ hf => .inl hf) (hgoto (by simp)) fun _ _ hd => .inl hd

theorem TrackedReaches.writers (h : TrackedReaches jobs s) : Writers jobs s := by
  have hboth : Held jobs s ∧ Writers jobs s := by
    apply h.invariant (I := fun s => Held jobs s ∧ Writers jobs s)
    · rintro _ rfl
      exact ⟨Held.init, Writers.init⟩
    · intro _ _ _ hs hstep
      exact ⟨hs.1.move hstep.1.move, hs.2.move hs.1 hstep.1.move⟩
  exact hboth.2

/-- The scheduler runs a job that is ready. -/
theorem run_ready {init : Sys → Prop} (h : Reachable init (Step jobs) s) {m : ℕ}
    (hm : m ∈ s.pushed) (hready : Ready jobs s m) :
    Reachable init (Step jobs) { s with
      started := Function.update s.started m true
      finished := Function.update s.finished m true } := by
  have hstarted : Reachable init (Step jobs)
      { s with started := Function.update s.started m true } := by
    by_cases hnew : s.started m = true
    · have hsame : Function.update s.started m true = s.started := by
        rw [← hnew, Function.update_eq_self]
      rwa [hsame]
    · have hguard : m ∈ s.pushed ∧ s.started m = false ∧ Ready jobs s m :=
        ⟨hm, by simpa using hnew, hready⟩
      exact h.step (e := Act.start m) (if_pos hguard)
  exact hstarted.step (e := Act.finish m) (if_pos (by simp))

/-- Jobs that wait only for each other can all be run, and no others. -/
theorem exists_drained (hr : Ranked s) (hs : Sched jobs s) (hw : Writers jobs s) {D : ℕ → Prop}
    (hD : ∀ k m, Precedes jobs s k m → D m → D k) (n : ℕ) :
    ∃ started finished, Reachable (· = s) (Step jobs) { s with started, finished } ∧
      (∀ m ∈ s.pushed, D m → s.seq m < n → finished m = true) ∧
      (∀ m, started m = true → s.started m = true ∨ D m) ∧
      ∀ m, finished m = true → s.finished m = true ∨ D m := by
  induction n with
  | zero =>
    exact ⟨s.started, s.finished, .start rfl, by simp, fun _ h => .inl h, fun _ h => .inl h⟩
  | succ n ih =>
    obtain ⟨started, finished, hreach, hdone, hstarted, hfinished⟩ := ih
    by_cases hnext : ∃ m ∈ s.pushed, D m ∧ s.seq m = n
    · obtain ⟨m, hm, hDm, hseq⟩ := hnext
      have hearlier {k : ℕ} (hp : Precedes jobs s k m) : finished k = true :=
        hdone k hp.1 (hD k m hp hDm) (hseq ▸ hp.2.2.1)
      have hready : Ready jobs { s with started, finished } m := by
        constructor
        · intro d hd
          obtain ⟨hpushed, hlt⟩ := hr.deps m d hd
          exact hearlier ⟨hpushed, hm, hlt hm, hw.deps m d hd⟩
        · intro k hk hfile hlt
          exact hearlier ⟨hk, hm, hlt, .inl hfile⟩
      refine ⟨_, _, run_ready hreach hm hready, fun k hk hDk hlt => ?_, fun k hk => ?_,
        fun k hk => ?_⟩
      · rcases Nat.lt_succ_iff_lt_or_eq.mp hlt with hlt | heq
        · by_cases hkm : k = m
          · simp [hkm]
          · simpa [hkm] using hdone k hk hDk hlt
        · obtain rfl := hs.seq_inj k hk m hm (heq.trans hseq.symm)
          simp
      · by_cases hkm : k = m
        · exact .inr (hkm ▸ hDm)
        · exact hstarted k (by simpa [hkm] using hk)
      · by_cases hkm : k = m
        · exact .inr (hkm ▸ hDm)
        · exact hfinished k (by simpa [hkm] using hk)
    · refine ⟨started, finished, hreach, fun k hk hDk hlt => ?_, hstarted, hfinished⟩
      have hne : s.seq k ≠ n := fun heq => hnext ⟨k, hk, hDk, heq⟩
      exact hdone k hk hDk (by omega)

/-- Past a push that is not tracked, the scheduler may start the job before a reader. -/
theorem Ordered.missed (h : Ordered jobs s) (hw : Writers jobs s) {j : ℕ}
    (hpush : Step jobs s (.push j) t) (hC : ¬ Tracked jobs s (.push j)) :
    ∃ u v, Reachable (· = t) (Step jobs) u ∧ Step jobs u (.start j) v ∧
      ¬ Synced jobs u (.start j) := by
  have hm := hpush.move
  have hg := hm.grows h.ranked
  have hr := h.ranked.move hm
  have hs := h.sched.move h.ranked hm
  simp only [Tracked, not_forall, not_or, not_exists, not_and] at hC
  obtain ⟨b, hb, k, hk, hkb, hbusy, hno⟩ := hC
  obtain ⟨hnew, hdeps, hj, hts, htf⟩ : j ∉ s.pushed ∧ t.deps = s.deps ∧ j ∈ t.pushed ∧
      t.started = s.started ∧ t.finished = s.finished := by
    cases hm with
    | pushed hpc =>
      exact ⟨h.ranked.early j (by simp [hpc, PushPc.early]), rfl, List.mem_cons_self, rfl, rfl⟩
  -- the jobs that do not come after the reader
  let D : ℕ → Prop := fun m => m ∈ s.pushed ∧ ¬ Relation.ReflTransGen (Precedes jobs s) k m
  have hD (a m : ℕ) (hp : Precedes jobs t a m) (hDm : D m) : D a := by
    obtain ⟨ha, hmt, hlt, hlinks⟩ := hp
    have has := hm.earlier h.ranked hmt ha hlt
    rw [(hg.pushed a has).2, (hg.pushed m hDm.1).2] at hlt
    exact ⟨has, fun hka => hDm.2 (hka.tail ⟨has, hDm.1, hlt, hlinks⟩)⟩
  have hDlinks {m : ℕ} (hms : m ∈ s.pushed) (hlinks : Links jobs m j) : D m :=
    ⟨hms, fun hkm => hno m hms hkm hlinks⟩
  obtain ⟨started, finished, hreach, hdone, hstarted, hfinished⟩ :=
    exists_drained hr hs (hw.move h.held hm) hD (t.pushed.length + 1)
  have hall {m : ℕ} (hDm : D m) : finished m = true := by
    have hmt := (hg.pushed m hDm.1).1
    exact hdone m hmt hDm (Nat.lt_succ_of_le (hr.seq_le m hmt))
  have hready : Ready jobs { t with started, finished } j := by
    constructor
    · intro d hd
      have hds : d ∈ s.deps j := hdeps ▸ hd
      exact hall (hDlinks (h.ranked.deps j d hds).1 (hw.deps j d hds))
    · intro m hmt hfile hlt
      exact hall (hDlinks (hm.earlier h.ranked hj hmt hlt) (.inl hfile))
  have hidle : started j = false := by
    by_contra hstart
    rcases hstarted j (by simpa using hstart) with hold | hDj
    · rw [hts] at hold
      exact hnew (h.sched.started j hold).1
    · exact hnew hDj.1
  have hguard : j ∈ t.pushed ∧ started j = false ∧ Ready jobs { t with started, finished } j :=
    ⟨hj, hidle, hready⟩
  refine ⟨_, _, hreach, if_pos hguard, fun hsync => ?_⟩
  have hkdone : finished k = true := hsync b hb k (hg.pushed k hk).1 (hg.late j hj hnew k hk)
    (List.mem_append_left _ hkb)
  rcases hfinished k hkdone with hold | hDk
  · exact hbusy (htf ▸ hold)
  · exact hDk.2 .refl

/-- The condition leaves out nothing: from every step that is not tracked the scheduler can
come to a step out of order. -/
theorem unsynced_of_not_tracked (h : TrackedReaches jobs s) {e : Act} (hstep : Step jobs s e t)
    (hC : ¬ Tracked jobs s e) :
    ∃ u v a, Reachable (· = s) (Step jobs) u ∧ Step jobs u a v ∧ ¬ Synced jobs u a := by
  cases e with
  | push j =>
    obtain ⟨u, v, hreach, hstart, hsync⟩ := h.ordered.missed h.writers hstep hC
    have hfrom : Reachable (· = s) (Step jobs) t := .step (.start rfl) hstep
    exact ⟨u, v, .start j, hfrom.trans hreach, hstart, hsync⟩
  | prepBo b =>
    refine ⟨s, t, .prepBo b, .start rfl, hstep, fun hsync => hC fun k hk hkb => ?_⟩
    exact .inl (hsync k hk hkb)
  | _ => exact absurd trivial hC

end RocketNpu.Fence
