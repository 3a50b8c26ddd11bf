import RocketNpu.Fence.Order

namespace RocketNpu.Fence
open Runs

variable {jobs : ℕ → Spec} {s t : Sys}

/-- Job `j` is made to wait for an earlier job `k`: they share the entity, or `k` writes a BO
that `j` names. -/
def Links (jobs : ℕ → Spec) (k j : ℕ) : Prop :=
  (jobs k).file = (jobs j).file ∨ ∃ b ∈ (jobs k).outs, b ∈ (jobs j).bos

def Precedes (jobs : ℕ → Spec) (s : Sys) (k j : ℕ) : Prop :=
  k ∈ s.pushed ∧ j ∈ s.pushed ∧ s.seq k < s.seq j ∧ Links jobs k j

/-- The job is pushed and its fence is not yet on `b`. -/
def Unattached (s : Sys) (j b : ℕ) : Prop := ∃ todo, s.pc j = .attaching todo ∧ b ∈ todo

/-- What implicit synchronisation promises of a step: a job that writes `b` starts, and
`rocket_ioctl_prep_bo` on `b` succeeds, after the earlier jobs that name `b`. -/
def Synced (jobs : ℕ → Spec) (s : Sys) : Act → Prop
  | .start j => ∀ b ∈ (jobs j).outs, ∀ k ∈ s.pushed, s.seq k < s.seq j → b ∈ (jobs k).bos →
      s.finished k = true
  | .prepBo b => ∀ k ∈ s.pushed, b ∈ (jobs k).bos → s.finished k = true
  | _ => True

/-- A job that writes `b` is pushed only when the unfinished readers of `b` precede it some
other way, and `b` is prepared only when the unfinished jobs on it precede a writer of `b`
whose fence is in place. -/
def Tracked (jobs : ℕ → Spec) (s : Sys) : Act → Prop
  | .push j => ∀ b ∈ (jobs j).outs, ∀ k ∈ s.pushed, b ∈ (jobs k).ins → s.finished k = true ∨
      ∃ m ∈ s.pushed, Relation.ReflTransGen (Precedes jobs s) k m ∧ Links jobs m j
  | .prepBo b => ∀ k ∈ s.pushed, b ∈ (jobs k).bos → s.finished k = true ∨
      ∃ w ∈ s.pushed, b ∈ (jobs w).outs ∧ ¬ Unattached s w b ∧
        Relation.ReflTransGen (Precedes jobs s) k w
  | _ => True

theorem Precedes.mono (hg : Grows s t) {k j : ℕ} (h : Precedes jobs s k j) :
    Precedes jobs t k j := by
  obtain ⟨hk, hj, hlt, hlinks⟩ := h
  obtain ⟨hk', hseqk⟩ := hg.pushed k hk
  obtain ⟨hj', hseqj⟩ := hg.pushed j hj
  exact ⟨hk', hj', by rwa [hseqk, hseqj], hlinks⟩

theorem chain_mono (hg : Grows s t) {k j : ℕ}
    (h : Relation.ReflTransGen (Precedes jobs s) k j) :
    Relation.ReflTransGen (Precedes jobs t) k j :=
  h.lift id fun _ _ hp => hp.mono hg

theorem Unattached.goto {j k b : ℕ} {p : PushPc}
    (hpc : ∀ todo, s.pc j = .attaching todo → todo = []) (h : Unattached s k b) :
    Unattached (s.goto j p) k b := by
  obtain ⟨todo, hk, hb⟩ := h
  have hkj : k ≠ j := by
    rintro rfl
    simp [hpc todo hk] at hb
  exact ⟨todo, by simpa [hkj] using hk, hb⟩

theorem addFence_self (s : Sys) (j : ℕ) (l : List (ℕ × Usage)) :
    (j, .write) ∈ addFence jobs s j l := by
  induction l with
  | nil => simp [addFence]
  | cons g l ih =>
    unfold addFence
    split_ifs
    · exact List.mem_cons_self
    · exact List.mem_cons_of_mem g ih

/-- A fence that gives way has signalled, or the new one stands for it. -/
theorem addFence_keeps {j : ℕ} {l : List (ℕ × Usage)} {f : ℕ × Usage} (hf : f ∈ l) :
    f ∈ addFence jobs s j l ∨ s.finished f.1 = true ∨
      (jobs f.1).file = (jobs j).file ∧ s.seq f.1 ≤ s.seq j := by
  induction l with
  | nil => simp at hf
  | cons g l ih =>
    unfold addFence
    split_ifs with hroom
    · rcases List.mem_cons.mp hf with rfl | hf
      · exact .inr hroom
      · exact .inl (List.mem_cons_of_mem _ hf)
    · rcases List.mem_cons.mp hf with rfl | hf
      · exact .inl List.mem_cons_self
      · exact (ih hf).imp_left (List.mem_cons_of_mem g)

/-- The writers of a BO are waited for through its fences, but for those still to attach. -/
def Attached (jobs : ℕ → Spec) (s : Sys) : Prop :=
  ∀ j ∈ s.pushed, ∀ b ∈ (jobs j).outs,
    Unattached s j b ∨ Stands jobs s (fun m => (m, .write) ∈ s.resv b) j

theorem Attached.init : Attached jobs .init := by simp [Attached, Sys.init]

theorem Attached.of_grows (h : Attached jobs s) (hg : Grows s t) (hp : t.pushed = s.pushed)
    (hresv : t.resv = s.resv) (hu : ∀ j b, Unattached s j b → Unattached t j b) :
    Attached jobs t := by
  intro j hj b hb
  rw [hp] at hj
  refine (h j hj b hb).imp (hu j b) fun hs => hs.mono hg (fun m hm => ?_) hj
  rwa [hresv]

theorem Attached.attach (hr : Ranked s) (hsched : Sched jobs s) (h : Attached jobs s)
    {i c : ℕ} {todo : List ℕ} (hpc : s.pc i = .attaching (c :: todo)) :
    Attached jobs ({ s with
      resv := Function.update s.resv c (addFence jobs s i (s.resv c)) }.goto i
        (.attaching todo)) := by
  have hi := hr.attaching i _ hpc
  intro j hj b hb
  have hself : (i, Usage.write) ∈ Function.update s.resv c (addFence jobs s i (s.resv c)) c := by
    simpa using addFence_self s i (s.resv c)
  rcases h j hj b hb with ⟨rest, hrest, hmem⟩ | hs
  · by_cases hji : j = i
    · subst hji
      obtain rfl := PushPc.attaching.inj (hpc.symm.trans hrest)
      rcases List.mem_cons.mp hmem with rfl | hmem
      · exact .inr (.inr ⟨j, hself, hj, rfl, le_rfl⟩)
      · exact .inl ⟨todo, by simp, hmem⟩
    · exact .inl ⟨rest, by simpa [hji] using hrest, hmem⟩
  · refine .inr ?_
    by_cases hbc : b = c
    · subst hbc
      rcases hs with hdone | ⟨m, hm, hpushed, hfile, hle⟩
      · exact .inl hdone
      · rcases @addFence_keeps jobs s i _ _ hm with hkept | hdone | ⟨hf, hq⟩
        · exact .inr ⟨m, by simpa using hkept, hpushed, hfile, hle⟩
        · exact .inl (hsched.finished_of_later hj hpushed hfile hle hdone)
        · exact .inr ⟨i, hself, hi, hf.symm.trans hfile, hle.trans hq⟩
    · exact hs.imp fun m hm => by simpa [hbc] using hm

theorem Attached.move (hr : Ranked s) (hsched : Sched jobs s) (h : Attached jobs s) {e : Act}
    (hm : Move jobs s e t) : Attached jobs t := by
  have hg := hm.grows hr
  cases hm with
  | attached hpc => exact h.attach hr hsched hpc
  | @pushed i hpc =>
    intro j hj b hb
    by_cases hold : j ∈ s.pushed
    · refine (h j hold b hb).imp (fun hu => ?_) fun hs => hs.mono hg (fun _ hm => hm) hold
      have hji : j ≠ i := fun hji => hr.early i (by simp [hpc, PushPc.early]) (hji ▸ hold)
      obtain ⟨todo, htodo, hmem⟩ := hu
      exact ⟨todo, by simpa [hji] using htodo, hmem⟩
    · obtain rfl : j = i := by simpa [hold] using hj
      exact .inl ⟨(jobs j).outs, by simp, hb⟩
  | started _ _ _ => exact h.of_grows hg rfl rfl fun _ _ hu => hu
  | finished _ => exact h.of_grows hg rfl rfl fun _ _ hu => hu
  | prepared _ => exact h
  | lockFailed hpc => exact h.of_grows hg rfl rfl fun _ _ hu => hu.goto (by simp [hpc])
  | locked hpc _ => exact h.of_grows hg rfl rfl fun _ _ hu => Unattached.goto (by simp [hpc]) hu
  | entered hpc _ => exact h.of_grows hg rfl rfl fun _ _ hu => Unattached.goto (by simp [hpc]) hu
  | acquired hpc => exact h.of_grows hg rfl rfl fun _ _ hu => Unattached.goto (by simp [hpc]) hu
  | acquireFailed hpc =>
    exact h.of_grows hg rfl rfl fun _ _ hu => Unattached.goto (by simp [hpc]) hu
  | attachedAll hpc =>
    exact h.of_grows hg rfl rfl fun _ _ hu => hu.goto fun todo htodo =>
      PushPc.attaching.inj (htodo.symm.trans hpc)
  | unlocked hpc => exact h.of_grows hg rfl rfl fun _ _ hu => Unattached.goto (by simp [hpc]) hu

/-- What the section under `sched_lock` has found so far: the earlier writers of the BOs it has
gone through. -/
def Collected (jobs : ℕ → Spec) (s : Sys) : Prop :=
  ∀ j todo, s.pc j = .acquiring todo → ∀ b ∈ (jobs j).bos, b ∈ todo.map Prod.fst ∨
    ∀ k ∈ s.pushed, b ∈ (jobs k).outs → Stands jobs s (· ∈ s.deps j) k

theorem Collected.init : Collected jobs .init := by simp [Collected, Sys.init]

theorem Collected.of_grows (h : Collected jobs s) (hg : Grows s t) (hp : t.pushed = s.pushed)
    (hd : ∀ j, t.deps j = s.deps j)
    (hpc : ∀ j todo, t.pc j = .acquiring todo →
      s.pc j = .acquiring todo ∨ ∀ b ∈ (jobs j).bos, b ∈ todo.map Prod.fst) :
    Collected jobs t := by
  intro j todo hj b hb
  rcases hpc j todo hj with hold | hall
  · refine (h j todo hold b hb).imp_right fun hs k hk hkb => ?_
    rw [hp] at hk
    refine (hs k hk hkb).mono hg (fun m hm => ?_) hk
    rwa [hd]
  · exact .inl (hall b hb)

/-- The dependencies found on a BO stand for all its writers: under its lock no fence is still
to be attached to it. -/
theorem Attached.found (h : Attached jobs s) (hheld : Held jobs s) {j b : ℕ}
    {todo : List (ℕ × Bool)} (hpc : s.pc j = .acquiring todo) (hb : b ∈ (jobs j).bos) {k : ℕ}
    (hk : k ∈ s.pushed) (hkb : b ∈ (jobs k).outs) (usage : Usage) :
    Stands jobs s (· ∈ waitedFor usage (s.resv b)) k := by
  rcases h k hk b hkb with ⟨rest, hrest, hmem⟩ | hs
  · have hj := hheld.lock j (by simp [hpc, PushPc.holding]) b hb
    have hkl := hheld.lock k (by simp [hrest, PushPc.holding]) b
      (List.mem_append_right _ hkb)
    obtain rfl : k = j := Option.some.inj (hkl.symm.trans hj)
    simp [hpc] at hrest
  · exact hs.imp fun m hm => List.mem_map.mpr ⟨_, List.mem_filter.mpr ⟨hm, by simp⟩, rfl⟩

theorem Collected.acquire (hheld : Held jobs s) (ha : Attached jobs s)
    (h : Collected jobs s) {i c : ℕ} {isWrite : Bool} {todo : List (ℕ × Bool)}
    (hpc : s.pc i = .acquiring ((c, isWrite) :: todo)) :
    Collected jobs ({ s with
      deps := Function.update s.deps i
        (waitedFor (usageRw isWrite) (s.resv c) ++ s.deps i) }.goto i (.acquiring todo)) := by
  intro j rest hj b hb
  by_cases hji : j = i
  · subst hji
    obtain rfl : todo = rest := by simpa using hj
    by_cases hbc : b = c
    · subst hbc
      refine .inr fun k hk hkb => ?_
      exact (ha.found hheld hpc hb hk hkb (usageRw isWrite)).imp fun m hm => by simp [hm]
    · have hold := h j _ hpc b hb
      simp only [List.map_cons, List.mem_cons, hbc, false_or] at hold
      refine hold.imp_right fun hs k hk hkb => ?_
      exact (hs k hk hkb).imp fun m hm => by simp [hm]
  · refine (h j rest (by simpa [hji] using hj) b hb).imp_right fun hs k hk hkb => ?_
    exact (hs k hk hkb).imp fun m hm => by simpa [hji] using hm

/-- A job that is pushed is no writer of what another section goes through. -/
theorem Collected.push (hheld : Held jobs s) (h : Collected jobs s) {i : ℕ}
    (hpc : s.pc i = .acquiring []) (hg : Grows s t) (hpushed : t.pushed = i :: s.pushed)
    (hd : t.deps = s.deps) (hpct : t.pc = Function.update s.pc i (.attaching (jobs i).outs)) :
    Collected jobs t := by
  intro j todo hj b hb
  rw [hpct] at hj
  have hji : j ≠ i := by
    rintro rfl
    simp at hj
  have hj' : s.pc j = .acquiring todo := by simpa [hji] using hj
  refine (h j todo hj' b hb).imp_right fun hs k hk hkb => ?_
  rw [hpushed] at hk
  rcases List.mem_cons.mp hk with rfl | hk
  · have hjl := hheld.lock j (by simp [hj', PushPc.holding]) b hb
    have hkl := hheld.lock k (by simp [hpc, PushPc.holding]) b (List.mem_append_right _ hkb)
    exact absurd (Option.some.inj (hjl.symm.trans hkl)) hji
  · refine (hs k hk hkb).mono hg (fun m hm => ?_) hk
    rwa [hd]

theorem Collected.move (hr : Ranked s) (hheld : Held jobs s) (ha : Attached jobs s)
    (h : Collected jobs s) {e : Act} (hm : Move jobs s e t) : Collected jobs t := by
  have hg := hm.grows hr
  have hgoto {i : ℕ} {p : PushPc} (hp : ∀ todo, p ≠ .acquiring todo) (j : ℕ)
      (todo : List (ℕ × Bool)) (hj : Function.update s.pc i p j = .acquiring todo) :
      s.pc j = .acquiring todo := by
    rcases pc_cases hj with ⟨-, hpt⟩ | ⟨-, hold⟩
    · exact absurd hpt (hp todo)
    · exact hold
  cases hm with
  | acquired hpc => exact h.acquire hheld ha hpc
  | @entered i hpc _ =>
    refine h.of_grows hg rfl (fun _ => rfl) fun j todo hj => ?_
    rcases pc_cases hj with ⟨rfl, hp⟩ | ⟨-, hold⟩
    · refine .inr fun b hb => ?_
      obtain rfl := PushPc.acquiring.inj hp
      rcases List.mem_append.mp hb with hb | hb
      · simp [hb]
      · simp [hb]
    · exact .inl hold
  | @acquireFailed i c k isWrite rest hpc =>
    intro j todo hj b hb
    have hji : j ≠ i := by
      rintro rfl
      simp at hj
    refine (h j todo (by simpa [hji] using hj) b hb).imp_right fun hs k hk hkb => ?_
    exact (hs k hk hkb).imp fun m hm => by simpa [hji] using hm
  | pushed hpc => exact h.push hheld hpc hg rfl rfl rfl
  | prepared _ => exact h
  | started _ _ _ => exact h.of_grows hg rfl (fun _ => rfl) fun _ _ hj => .inl hj
  | finished _ => exact h.of_grows hg rfl (fun _ => rfl) fun _ _ hj => .inl hj
  | _ => exact h.of_grows hg rfl (fun _ => rfl) fun j todo hj => .inl (hgoto (by simp) j todo hj)

/-- A job waits for all the earlier writers of its BOs. -/
def Complete (jobs : ℕ → Spec) (s : Sys) : Prop :=
  ∀ j ∈ s.pushed, ∀ b ∈ (jobs j).bos, ∀ k ∈ s.pushed, s.seq k < s.seq j → b ∈ (jobs k).outs →
    Stands jobs s (· ∈ s.deps j) k

/-- Only a push makes a job pushed. -/
theorem Move.push_of_new {e : Act} (hm : Move jobs s e t) {j : ℕ} (hj : j ∈ t.pushed)
    (hnew : j ∉ s.pushed) : e = .push j ∧ s.pc j = .acquiring [] ∧ t.deps = s.deps := by
  cases hm with
  | @pushed i hpc =>
    obtain rfl : j = i := by simpa [hnew] using hj
    exact ⟨rfl, hpc, rfl⟩
  | _ => exact absurd hj hnew

/-- What is before a job in the order of pushes was pushed before it. -/
theorem Move.earlier (hr : Ranked s) {e : Act} (hm : Move jobs s e t) {j k : ℕ}
    (hj : j ∈ t.pushed) (hk : k ∈ t.pushed) (hlt : t.seq k < t.seq j) : k ∈ s.pushed := by
  by_contra hknew
  obtain ⟨hek, -⟩ := hm.push_of_new hk hknew
  by_cases hold : j ∈ s.pushed
  · exact ((hm.grows hr).late k hk hknew j hold).asymm hlt
  · obtain ⟨hej, -⟩ := hm.push_of_new hj hold
    obtain rfl : k = j := Act.push.inj (hek.symm.trans hej)
    exact lt_irrefl _ hlt

theorem Complete.move (hr : Ranked s) (hc : Collected jobs s) (h : Complete jobs s) {e : Act}
    (hm : Move jobs s e t) : Complete jobs t := by
  have hg := hm.grows hr
  intro j hj b hb k hk hlt hkb
  have hks := hm.earlier hr hj hk hlt
  suffices hs : Stands jobs s (· ∈ s.deps j) k by
    refine hs.mono hg (fun m hmem => ?_) hks
    by_cases hold : j ∈ s.pushed
    · rwa [hg.deps j hold]
    · obtain ⟨-, -, hd⟩ := hm.push_of_new hj hold
      rwa [hd]
  by_cases hold : j ∈ s.pushed
  · rw [(hg.pushed k hks).2, (hg.pushed j hold).2] at hlt
    exact h j hold b hb k hks hlt hkb
  · obtain ⟨-, hpc, -⟩ := hm.push_of_new hj hold
    rcases hc j [] hpc b hb with hb | hs
    · simp at hb
    · exact hs k hks hkb

/-- The earlier readers of what a job writes are finished, or precede it through others. -/
def ReadersPrecede (jobs : ℕ → Spec) (s : Sys) : Prop :=
  ∀ j ∈ s.pushed, ∀ b ∈ (jobs j).outs, ∀ k ∈ s.pushed, s.seq k < s.seq j → b ∈ (jobs k).ins →
    s.finished k = true ∨
      ∃ m, Relation.ReflTransGen (Precedes jobs s) k m ∧ Precedes jobs s m j

theorem ReadersPrecede.move (hr : Ranked s) (h : ReadersPrecede jobs s) {e : Act}
    (hm : Move jobs s e t) (hC : Tracked jobs s e) : ReadersPrecede jobs t := by
  have hg := hm.grows hr
  intro j hj b hb k hk hlt hkb
  have hks := hm.earlier hr hj hk hlt
  by_cases hold : j ∈ s.pushed
  · rw [(hg.pushed k hks).2, (hg.pushed j hold).2] at hlt
    refine (h j hold b hb k hks hlt hkb).imp (hg.finished k) fun ⟨m, hkm, hmj⟩ => ?_
    exact ⟨m, chain_mono hg hkm, hmj.mono hg⟩
  · obtain ⟨rfl, -, -⟩ := hm.push_of_new hj hold
    refine (hC b hb k hks hkb).imp (hg.finished k) fun ⟨m, hpushed, hkm, hlinks⟩ => ?_
    refine ⟨m, chain_mono hg hkm, ?_⟩
    exact ⟨(hg.pushed m hpushed).1, hj, hg.late j hj hold m hpushed, hlinks⟩

/-- All that holds in a run whose steps are tracked. -/
structure Ordered (jobs : ℕ → Spec) (s : Sys) : Prop where
  ranked : Ranked s
  held : Held jobs s
  sched : Sched jobs s
  attached : Attached jobs s
  collected : Collected jobs s
  complete : Complete jobs s
  readers : ReadersPrecede jobs s

theorem Ordered.init : Ordered jobs .init where
  ranked := .init
  held := .init
  sched := .init
  attached := .init
  collected := .init
  complete := by simp [Complete, Sys.init]
  readers := by simp [ReadersPrecede, Sys.init]

theorem Ordered.move (h : Ordered jobs s) {e : Act} (hm : Move jobs s e t)
    (hC : Tracked jobs s e) : Ordered jobs t where
  ranked := h.ranked.move hm
  held := h.held.move hm
  sched := h.sched.move h.ranked hm
  attached := h.attached.move h.ranked h.sched hm
  collected := h.collected.move h.ranked h.held h.attached hm
  complete := h.complete.move h.ranked h.collected hm
  readers := h.readers.move h.ranked hm hC

/-- A job that is ready has the jobs it was made to wait for behind it. -/
theorem Ordered.finished_of_precedes (h : Ordered jobs s) {j k : ℕ} (hready : Ready jobs s j)
    (hp : Precedes jobs s k j) : s.finished k = true := by
  obtain ⟨hk, hj, hlt, hfile | ⟨b, hkb, hb⟩⟩ := hp
  · exact hready.2 k hk hfile hlt
  · exact h.sched.finished_of_stands hk hready.1 (h.complete j hj b hb k hk hlt hkb)

theorem Ordered.finished_of_chain (h : Ordered jobs s) {k m : ℕ}
    (hkm : Relation.ReflTransGen (Precedes jobs s) k m) (hdone : s.finished m = true) :
    s.finished k = true := by
  induction hkm using Relation.ReflTransGen.head_induction_on with
  | refl => exact hdone
  | head hp _ hdone =>
    have hready := (h.sched.started _ (h.sched.finished _ hdone)).2
    exact h.finished_of_precedes hready hp

theorem Ordered.synced (h : Ordered jobs s) {e : Act} (hm : Move jobs s e t)
    (hC : Tracked jobs s e) : Synced jobs s e := by
  cases hm with
  | @started j hj _ hready =>
    intro b hb k hk hlt hkb
    rcases List.mem_append.mp hkb with hkb | hkb
    · rcases h.readers j hj b hb k hk hlt hkb with hdone | ⟨m, hkm, hmj⟩
      · exact hdone
      · exact h.finished_of_chain hkm (h.finished_of_precedes hready hmj)
    · have hlinks : Links jobs k j := .inr ⟨b, hkb, List.mem_append_right _ hb⟩
      exact h.finished_of_precedes hready ⟨hk, hj, hlt, hlinks⟩
  | @prepared b hwait =>
    intro k hk hkb
    rcases hC k hk hkb with hdone | ⟨w, hw, hwb, hatt, hkw⟩
    · exact hdone
    · have hstands := (h.attached w hw b hwb).resolve_left hatt
      refine h.finished_of_chain hkw (h.sched.finished_of_stands hw (fun m hm => ?_) hstands)
      exact hwait m (List.mem_map.mpr ⟨_, List.mem_filter.mpr ⟨hm, by simp⟩, rfl⟩)
  | _ => trivial

abbrev TrackedReaches (jobs : ℕ → Spec) (s : Sys) : Prop :=
  Reachable (· = Sys.init) (restrict (Step jobs) (Tracked jobs)) s

theorem TrackedReaches.ordered (h : TrackedReaches jobs s) : Ordered jobs s := by
  refine h.invariant ?_ fun _ _ _ hs hstep => hs.move hstep.1.move hstep.2
  rintro _ rfl
  exact Ordered.init

/-- In a run whose pushes and `rocket_ioctl_prep_bo` calls are tracked, every job and every
CPU access comes after the earlier jobs on its buffers. -/
theorem synced_of_tracked (h : TrackedReaches jobs s) {e : Act} (hstep : Step jobs s e t)
    (hC : Tracked jobs s e) : Synced jobs s e :=
  h.ordered.synced hstep.move hC

/-- Job 0 of file 0 reads BO 0, job 1 of the given file writes it. -/
def sharedBo (file j : ℕ) : Spec := if j = 0 then ⟨0, [0], []⟩ else ⟨file, [], [0]⟩

def submitReader : List Act :=
  [.lock 0 true, .enter 0, .acquire 0 none, .push 0, .attach 0, .unlock 0]

def submitWriter : List Act :=
  [.lock 1 true, .enter 1, .acquire 1 none, .push 1, .attach 1, .attach 1, .unlock 1]

def Act.isPrep : Act → Bool
  | .prepBo _ => true
  | _ => false

/-- Jobs of one file need no fences to be in order. -/
theorem tracked_of_oneFile (hfile : ∀ j k, (jobs j).file = (jobs k).file) {e : Act}
    (he : e.isPrep = false) : Tracked jobs s e := by
  cases e with
  | push j =>
    intro b _ k hk _
    exact .inr ⟨k, hk, .refl, .inl (hfile k j)⟩
  | prepBo b => simp [Act.isPrep] at he
  | _ => trivial

/-- Reader and writer are of one file, and the writer starts after the reader. -/
theorem synced_of_tracked_oneFile :
    ∃ s, s.pushed = [1, 0] ∧ s.finished 0 = true ∧ Synced (sharedBo 0) s (.start 1) := by
  let run : List Act := submitReader ++ submitWriter ++ [.start 0, .finish 0]
  have hend : (run.foldlM
      (fun (s : Sys) (e : Act) => if e.isPrep then none else Act.run (sharedBo 0) e s) Sys.init).map
        (fun s => (s.pushed, s.finished 0, (startJob (sharedBo 0) 1 s).isSome)) =
      some ([1, 0], true, true) := rfl
  obtain ⟨s, hs, hobs⟩ := Option.map_eq_some_iff.mp hend
  simp only [Prod.mk.injEq] at hobs
  obtain ⟨hpushed, hdone, hstart⟩ := hobs
  obtain ⟨t, ht⟩ := Option.isSome_iff_exists.mp hstart
  have hfile (j k : ℕ) : (sharedBo 0 j).file = (sharedBo 0 k).file := by
    unfold sharedBo
    split_ifs <;> rfl
  have hreach : TrackedReaches (sharedBo 0) s := by
    refine Reachable.foldlM (fun s e t hrun => ?_) (.start rfl) hs
    split_ifs at hrun with he
    exact ⟨hrun, tracked_of_oneFile hfile (by simpa using he)⟩
  exact ⟨s, hpushed, hdone, synced_of_tracked hreach ht (tracked_of_oneFile hfile rfl)⟩

/-- The writer is of another file. No fence tells it, or `rocket_ioctl_prep_bo`, of the
reader. -/
theorem not_synced :
    (∃ s t, Reaches (sharedBo 1) s ∧ Step (sharedBo 1) s (.start 1) t ∧
      s.started 0 = true ∧ ¬ Synced (sharedBo 1) s (.start 1)) ∧
    ∃ s t, Reaches (sharedBo 1) s ∧ Step (sharedBo 1) s (.prepBo 0) t ∧
      s.started 0 = true ∧ ¬ Synced (sharedBo 1) s (.prepBo 0) := by
  have h0 : Reaches (sharedBo 1) .init := .start rfl
  constructor
  · let run : List Act := submitReader ++ [.start 0] ++ submitWriter
    have hend : (run.foldlM (fun (s : Sys) e => Act.run (sharedBo 1) e s) Sys.init).map
          (fun s => (s.pushed, s.seq 0, s.seq 1, s.started 0, s.finished 0,
            (startJob (sharedBo 1) 1 s).isSome)) =
        some ([1, 0], 1, 2, true, false, true) := rfl
    obtain ⟨s, hs, hobs⟩ := Option.map_eq_some_iff.mp hend
    simp only [Prod.mk.injEq] at hobs
    obtain ⟨hpushed, hseq0, hseq1, hrun, hbusy, hstart⟩ := hobs
    obtain ⟨t, ht⟩ := Option.isSome_iff_exists.mp hstart
    refine ⟨s, t, h0.foldlM (fun _ _ _ h => h) hs, ht, hrun, fun hsync => ?_⟩
    have hdone := hsync 0 (by decide) 0 (by simp [hpushed]) (by omega) (by decide)
    simp [hbusy] at hdone
  · let run : List Act := submitReader ++ [.start 0]
    have hend : (run.foldlM (fun (s : Sys) e => Act.run (sharedBo 1) e s) Sys.init).map
          (fun s => (s.pushed, s.started 0, s.finished 0, (Fence.prepBo 0 s).isSome)) =
        some ([0], true, false, true) := rfl
    obtain ⟨s, hs, hobs⟩ := Option.map_eq_some_iff.mp hend
    simp only [Prod.mk.injEq] at hobs
    obtain ⟨hpushed, hrun, hbusy, hprep⟩ := hobs
    obtain ⟨t, ht⟩ := Option.isSome_iff_exists.mp hprep
    refine ⟨s, t, h0.foldlM (fun _ _ _ h => h) hs, ht, hrun, fun hsync => ?_⟩
    have hdone := hsync 0 (by simp [hpushed]) (by decide)
    simp [hbusy] at hdone

end RocketNpu.Fence
