import Mathlib.Data.Set.Insert
import RocketNpu.Fence.Hazards
import RocketNpu.Lib.Serial

namespace RocketNpu.Fence
open Runs Serial

/-- What the jobs do to the contents of BOs while the NPU runs them. A submit names the BOs its
job reads or writes, and those it writes as outputs. -/
structure Programs (jobs : ℕ → Spec) (L V : Type*) where
  work : ℕ → Work ℕ L V
  reads : ∀ j, ∀ b ∈ (work j).reads, b ∈ (jobs j).bos
  writes : ∀ j, ∀ b ∈ (work j).writes, b ∈ (jobs j).outs

/-- The driver with the contents of the BOs, and how many steps each job took on them. -/
structure Exec (L V : Type*) where
  sys : Sys
  cells : Cells ℕ ℕ L V
  did : ℕ → ℕ

inductive ExecAct where
  | sys (e : Act)
  /-- The NPU takes a step of a job that is started and not finished. -/
  | work (j : ℕ)

variable {jobs : ℕ → Spec} {L V : Type*}

def Exec.init (c : Cells ℕ ℕ L V) : Exec L V := ⟨.init, c, fun _ => 0⟩

def Exec.run (p : Programs jobs L V) (s : Exec L V) : ExecAct → Option (Exec L V)
  | .sys e => (e.run jobs s.sys).map fun t => { s with sys := t }
  | .work j =>
    if s.sys.started j = true ∧ s.sys.finished j = false then
      some { s with
        cells := act p.work j s.cells
        did := Function.update s.did j (s.did j + 1) }
    else none

def ExecStep (p : Programs jobs L V) (s : Exec L V) (e : ExecAct) (t : Exec L V) : Prop :=
  s.run p e = some t

/-- The pushes are tracked; `rocket_ioctl_prep_bo` may be called any time. -/
def PushTracked (jobs : ℕ → Spec) (s : Exec L V) : ExecAct → Prop
  | .sys (.push j) => Tracked jobs s.sys (.push j)
  | _ => True

abbrev ExecReaches (p : Programs jobs L V) (c : Cells ℕ ℕ L V) (s : Exec L V) : Prop :=
  Reachable (· = Exec.init c) (restrict (ExecStep p) (PushTracked jobs)) s

variable {p : Programs jobs L V} {c : Cells ℕ ℕ L V} {s t : Exec L V}

theorem ExecStep.cases {e : ExecAct} (h : ExecStep p s e t) :
    (∃ a u, e = .sys a ∧ Step jobs s.sys a u ∧ t = { s with sys := u }) ∨
      ∃ j, e = .work j ∧ s.sys.started j = true ∧ s.sys.finished j = false ∧
        t = { s with
          cells := act p.work j s.cells
          did := Function.update s.did j (s.did j + 1) } := by
  unfold ExecStep Exec.run at h
  cases e with
  | sys a =>
    obtain ⟨u, hu, rfl⟩ := Option.map_eq_some_iff.mp h
    exact .inl ⟨a, u, rfl, hu, rfl⟩
  | work j =>
    simp only [Option.ite_none_right_eq_some, Option.some.injEq] at h
    obtain ⟨⟨hstarted, hbusy⟩, rfl⟩ := h
    exact .inr ⟨j, rfl, hstarted, hbusy, rfl⟩

/-- Jobs are put in front of those pushed before. -/
def LatestFirst (s : Sys) : Prop := s.pushed.Pairwise fun k j => s.seq j < s.seq k

theorem Move.pushed_cases {s t : Sys} {e : Act} (hm : Move jobs s e t) :
    t.pushed = s.pushed ∨ ∃ j, s.pc j = .acquiring [] ∧ t.pushed = j :: s.pushed := by
  cases hm with
  | @pushed j hpc => exact .inr ⟨j, hpc, rfl⟩
  | _ => exact .inl rfl

theorem Move.keeps_started {s t : Sys} {e : Act} (hm : Move jobs s e t) {j : ℕ}
    (hj : s.started j = true) : t.started j = true := by
  cases hm with
  | @started i _ _ _ =>
    by_cases hji : j = i
    · simp [hji]
    · simpa [hji] using hj
  | _ => exact hj

theorem LatestFirst.move {s t : Sys} (h : LatestFirst s) (hr : Ranked s) {e : Act}
    (hm : Move jobs s e t) : LatestFirst t := by
  have hg := hm.grows hr
  have hold : s.pushed.Pairwise fun k j => t.seq j < t.seq k := by
    refine List.Pairwise.imp_of_mem (fun hk hj hlt => ?_) h
    rwa [(hg.pushed _ hk).2, (hg.pushed _ hj).2]
  rcases hm.pushed_cases with hp | ⟨i, hpc, hp⟩
  · rwa [LatestFirst, hp]
  · have hi : i ∉ s.pushed := hr.early i (by simp [hpc, PushPc.early])
    have hit : i ∈ t.pushed := by simp [hp]
    rw [LatestFirst, hp]
    exact List.pairwise_cons.mpr ⟨fun j hj => hg.late i hit hi j hj, hold⟩

theorem LatestFirst.nodup {s : Sys} (h : LatestFirst s) : s.pushed.Nodup :=
  h.imp fun {k j} hlt hkj => by simp [hkj] at hlt

/-- Of two jobs on a BO that one of them writes, the later one is started after the earlier one
is finished. -/
theorem Ordered.finished_of_shared {s : Sys} (h : Ordered jobs s) {j k b : ℕ}
    (hj : j ∈ s.pushed) (hk : s.started k = true) (hlt : s.seq j < s.seq k)
    (hb : b ∈ (jobs j).outs ∧ b ∈ (jobs k).bos ∨ b ∈ (jobs j).bos ∧ b ∈ (jobs k).outs) :
    s.finished j = true := by
  obtain ⟨hkp, hready⟩ := h.sched.started k hk
  have hwriter (hjb : b ∈ (jobs j).outs) (hkb : b ∈ (jobs k).bos) : s.finished j = true :=
    h.finished_of_precedes hready ⟨hj, hkp, hlt, .inr ⟨b, hjb, hkb⟩⟩
  rcases hb with ⟨hjb, hkb⟩ | ⟨hjb, hkb⟩
  · exact hwriter hjb hkb
  · rcases List.mem_append.mp hjb with hjb | hjb
    · rcases h.readers k hkp b hkb j hj hlt hjb with hdone | ⟨m, hjm, hmk⟩
      · exact hdone
      · exact h.finished_of_chain hjm (h.finished_of_precedes hready hmk)
    · exact hwriter hjb (List.mem_append_right _ hkb)

/-- A job that runs shares no BO that is written with a later job that was started. -/
theorem Ordered.apart (p : Programs jobs L V) {s : Sys} (h : Ordered jobs s) {j k : ℕ}
    (hj : j ∈ s.pushed) (hbusy : s.finished j = false) (hk : s.started k = true)
    (hlt : s.seq j < s.seq k) : Apart (p.work k) (p.work j) := by
  have hno {b : ℕ} : ¬ (b ∈ (jobs j).outs ∧ b ∈ (jobs k).bos ∨
      b ∈ (jobs j).bos ∧ b ∈ (jobs k).outs) := fun hb => by
    simp [h.finished_of_shared hj hk hlt hb] at hbusy
  have hbos {i b : ℕ} (hb : b ∈ (jobs i).outs) : b ∈ (jobs i).bos := List.mem_append_right _ hb
  constructor
  · exact fun b hw hr => hno (.inr ⟨p.reads j b hr, p.writes k b hw⟩)
  · exact fun b hw hw' => hno (.inr ⟨hbos (p.writes j b hw'), p.writes k b hw⟩)
  · exact fun b hw hr => hno (.inl ⟨p.writes j b hw, p.reads k b hr⟩)

/-- What holds in a run whose pushes are tracked. -/
structure InTurn (p : Programs jobs L V) (c : Cells ℕ ℕ L V) (s : Exec L V) : Prop where
  ordered : Ordered jobs s.sys
  latestFirst : LatestFirst s.sys
  did : ∀ j, s.did j ≠ 0 → s.sys.started j = true
  cells : s.cells = inTurn (act p.work) s.did s.sys.pushed c

theorem InTurn.init : InTurn p c (.init c) where
  ordered := .init
  latestFirst := .nil
  did _ hj := absurd rfl hj
  cells := rfl

theorem InTurn.work (h : InTurn p c s) {j : ℕ} (hj : s.sys.started j = true)
    (hbusy : s.sys.finished j = false) :
    InTurn p c { s with
      cells := act p.work j s.cells
      did := Function.update s.did j (s.did j + 1) } where
  ordered := h.ordered
  latestFirst := h.latestFirst
  did i hi := by
    by_cases hij : i = j
    · exact hij ▸ hj
    · exact h.did i (by simpa [hij] using hi)
  cells := by
    have hpushed := (h.ordered.sched.started j hj).1
    have hlater : s.sys.pushed.Pairwise fun k i => i = j → s.did k ≠ 0 →
        Function.Commute (act p.work k) (act p.work j) := by
      refine h.latestFirst.imp fun {k i} hlt hij hk => ?_
      subst hij
      have hki : k ≠ i := fun hki => by simp [hki] at hlt
      exact act_comm hki (h.ordered.apart p hpushed hbusy (h.did k hk) hlt)
    rw [inTurn_step h.latestFirst.nodup hpushed hlater, ← h.cells]

theorem InTurn.sys (h : InTurn p c s) {e : Act} {u : Sys} (hm : Move jobs s.sys e u)
    (hordered : Ordered jobs u) : InTurn p c { s with sys := u } where
  ordered := hordered
  latestFirst := h.latestFirst.move h.ordered.ranked hm
  did j hj := hm.keeps_started (h.did j hj)
  cells := by
    rcases hm.pushed_cases with hp | ⟨j, hpc, hp⟩
    · simpa only [hp] using h.cells
    · have hj : j ∉ s.sys.pushed := h.ordered.ranked.early j (by simp [hpc, PushPc.early])
      have hidle : s.did j = 0 := by
        by_contra hdid
        exact hj (h.ordered.sched.started j (h.did j hdid)).1
      simpa only [hp, inTurn_cons, hidle, Function.iterate_zero, id_eq] using h.cells

theorem ExecReaches.inTurn (h : ExecReaches p c s) : InTurn p c s := by
  refine h.invariant ?_ fun s e t hs hstep => ?_
  · rintro _ rfl
    exact .init
  · obtain ⟨hrun, hC⟩ := hstep
    rcases hrun.cases with ⟨a, u, rfl, hmove, rfl⟩ | ⟨_, -, hj, hbusy, rfl⟩
    · have hm := hmove.move
      refine hs.sys hm ?_
      cases a with
      | prepBo b =>
        cases hm
        exact hs.ordered
      | push j => exact hs.ordered.move hm hC
      | _ => exact hs.ordered.move hm trivial
    · exact hs.work hj hbusy

/-- The jobs may run side by side on the cores: in a run whose pushes are tracked, what is in
the BOs is what the jobs leave that run one after another in the order of their pushes. -/
theorem contents_inTurn (h : ExecReaches p c s) :
    s.cells = inTurn (act p.work) s.did s.sys.pushed c := h.inTurn.cells

/-- Job 0 of `sharedBo` keeps what it reads in BO 0, the others write 7 to it. -/
def readThenWrite (file : ℕ) : Programs (sharedBo file) ℕ ℕ where
  work j :=
    if j = 0 then
      { reads := {0}
        writes := ∅
        next := fun _ v => (v 0, v)
        frame := fun _ _ _ _ => rfl
        sees := fun _ _ _ h => ⟨h 0 rfl, fun _ hb => hb.elim⟩ }
    else
      { reads := ∅
        writes := {0}
        next := fun l v => (l, Function.update v 0 7)
        frame := fun _ _ _ hb => Function.update_of_ne hb _ _
        sees := fun _ _ _ _ => ⟨rfl, fun b hb => by simp [Set.mem_singleton_iff.mp hb]⟩ }
  reads j b hb := by
    by_cases hj : j = 0
    · simpa [hj, sharedBo, Spec.bos] using hb
    · simp [hj] at hb
  writes j b hb := by
    by_cases hj : j = 0
    · simp [hj] at hb
    · simpa [hj, sharedBo] using hb

def fives : Cells ℕ ℕ ℕ ℕ := ⟨fun _ => 0, fun _ => 5⟩

def readWriteRun : List ExecAct :=
  (submitReader ++ submitWriter).map .sys ++
    [.sys (.start 0), .work 0, .sys (.finish 0), .sys (.start 1), .work 1, .sys (.finish 1)]

/-- Reader and writer are of one file, so all its pushes are tracked. -/
theorem readWriteRun_reaches {s : Exec ℕ ℕ}
    (hs : readWriteRun.foldlM (Exec.run (readThenWrite 0)) (Exec.init fives) = some s) :
    ExecReaches (readThenWrite 0) fives s := by
  have hfile (j k : ℕ) : (sharedBo 0 j).file = (sharedBo 0 k).file := by
    unfold sharedBo
    split_ifs <;> rfl
  refine Reachable.foldlM (fun s e t hrun => ⟨hrun, ?_⟩) (.start rfl) hs
  match e with
  | .sys (.push j) => exact tracked_of_oneFile (e := .push j) hfile rfl
  | .sys (.lock ..) | .sys (.enter _) | .sys (.acquire ..) | .sys (.attach _)
  | .sys (.unlock _) | .sys (.start _) | .sys (.finish _) | .sys (.prepBo _) | .work _ => trivial

theorem contents_inTurn_readWrite :
    ∃ s : Exec ℕ ℕ, s.sys.pushed = [1, 0] ∧ s.cells.loc 0 = 5 ∧ s.cells.mem 0 = 7 ∧
      s.cells = inTurn (act (readThenWrite 0).work) s.did s.sys.pushed fives := by
  have hend : (readWriteRun.foldlM (Exec.run (readThenWrite 0)) (Exec.init fives)).map
      (fun s => (s.sys.pushed, s.cells.loc 0, s.cells.mem 0)) = some ([1, 0], 5, 7) := rfl
  obtain ⟨s, hs, hobs⟩ := Option.map_eq_some_iff.mp hend
  simp only [Prod.mk.injEq] at hobs
  obtain ⟨hpushed, hloc, hmem⟩ := hobs
  exact ⟨s, hpushed, hloc, hmem, contents_inTurn (readWriteRun_reaches hs)⟩

/-- The jobs in `old` that write `b` are behind the CPU. -/
structure Prepared (jobs : ℕ → Spec) (b : ℕ) (old : List ℕ) (s : Sys) : Prop where
  ranked : Ranked s
  sched : Sched jobs s
  done : ∀ k ∈ old, b ∈ (jobs k).outs → s.finished k = true

theorem Prepared.move {s t : Sys} {b : ℕ} {old : List ℕ} (h : Prepared jobs b old s) {e : Act}
    (hm : Move jobs s e t) : Prepared jobs b old t where
  ranked := h.ranked.move hm
  sched := h.sched.move h.ranked hm
  done k hk hkb := (hm.grows h.ranked).finished k (h.done k hk hkb)

end RocketNpu.Fence
