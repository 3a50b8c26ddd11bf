import RocketNpu.Busy.Counters
import RocketNpu.Lib.Marks
import RocketNpu.Lib.Runs
import RocketNpu.Lib.SlotTable

namespace RocketNpu.Busy
open Devfreq Runs Marks

/-- A sample of the clock that waits for `rocket_df_busy_lock`. -/
inductive Sample where
  | idle (i t : ℕ)
  | status (t : ℕ)
deriving DecidableEq, Repr

def Sample.time : Sample → ℕ
  | .idle _ t | .status t => t

/-- The counters while any number of threads record and read. -/
structure Race where
  c : Counters
  now : ℕ
  /-- Per thread. -/
  pending : ℕ → Option Sample
  /-- A core is on from its `rocket_devfreq_record_busy`, and off from the sample of its
  `rocket_devfreq_record_idle`. -/
  marks : List (Mark ℕ)

/-- The atomic steps of the calls; `rocket_devfreq_record_busy` has only its section. -/
inductive Section where
  | tick (t : ℕ)
  | recordBusy (i : ℕ)
  | idleSample (k i : ℕ)
  | idleLocked (k : ℕ)
  | statusSample (k : ℕ)
  | statusLocked (k reqRate : ℕ)
deriving DecidableEq, Repr

/-- One step, by threads that are at the right place for it. -/
def Section.run (maxCores : Option ℕ) (e : Section) (x : Race) : Option Race :=
  match e with
  | .tick t => if x.now ≤ t ∧ t ≤ ktimeMax then some { x with now := t } else none
  | .recordBusy i =>
    some { x with
      c := rocketDevfreqRecordBusy i x.now x.c
      marks := ⟨x.now, i, true⟩ :: x.marks }
  | .idleSample k i =>
    match x.pending k with
    | none => some { x with
        pending := Function.update x.pending k (some (.idle i x.now))
        marks := ⟨x.now, i, false⟩ :: x.marks }
    | some _ => none
  | .idleLocked k =>
    match x.pending k with
    | some (.idle i t) => some { x with
        c := rocketDevfreqRecordIdle i t x.c
        pending := Function.update x.pending k none }
    | _ => none
  | .statusSample k =>
    match x.pending k with
    | none => some { x with pending := Function.update x.pending k (some (.status x.now)) }
    | some _ => none
  | .statusLocked k reqRate =>
    match x.pending k with
    | some (.status t) => some { x with
        c := (rocketDevfreqGetDevStatus maxCores reqRate t x.c).2
        pending := Function.update x.pending k none }
    | _ => none

variable {maxCores : Option ℕ} {x y : Race}

def SectionStep (maxCores : Option ℕ) (x : Race) (e : Section) (y : Race) : Prop :=
  e.run maxCores x = some y

/-- Nobody is busy and no call is under way. -/
def Race.idle (now lastRead : ℕ) : Race := ⟨{ Counters.load with lastRead }, now, fun _ => none, []⟩

def SectionStart (x : Race) : Prop :=
  ∃ now lastRead, lastRead ≤ now ∧ now ≤ ktimeMax ∧ x = .idle now lastRead

/-- The step adds the time between its sample `t` and `start` to the counter of core `i`. -/
def Adds (maxCores : Option ℕ) (x : Race) (e : Section) (i t : ℕ) : Prop :=
  x.c.start i ≠ 0 ∧
    match e with
    | .idleLocked k => i < rocketDfMaxNb ∧ x.pending k = some (.idle i t)
    | .statusLocked k _ => i < coresRead maxCores ∧ x.pending k = some (.status t)
    | _ => False

/-- No step adds a negative time, and none reports a window in which every core was idle for
some time as all busy. -/
structure Faithful (maxCores : Option ℕ) (x : Race) (e : Section) : Prop where
  nonneg : ∀ i t, Adds maxCores x e i t → 0 ≤ elapsed t (x.c.start i)
  honest : ∀ k reqRate t, e = .statusLocked k reqRate → x.pending k = some (.status t) →
    (∀ i < coresRead maxCores, markedTime x.marks i x.c.lastRead t < t - x.c.lastRead) →
    (rocketDevfreqGetDevStatus maxCores reqRate t x.c).1.busyTime ≠
      (rocketDevfreqGetDevStatus maxCores reqRate t x.c).1.totalTime

/-- The sample is to be compared with the `start` of core `i`. -/
def Sample.Concerns (maxCores : Option ℕ) : Sample → ℕ → Prop
  | .idle j _, i => j = i
  | .status _, i => i < coresRead maxCores

/-- The step sets or clears the `start` of core `i`, by the sample `t`. -/
def Moves (maxCores : Option ℕ) (x : Race) (e : Section) (i t : ℕ) : Prop :=
  Adds maxCores x e i t ∨ e = .recordBusy i ∧ x.c.start i = 0 ∧ t = x.now

/-- No step that sets or clears a `start` overtakes an earlier sample that is still to be
compared with it. -/
def InOrder (maxCores : Option ℕ) (x : Race) (e : Section) : Prop :=
  ∀ i t, Moves maxCores x e i t →
    ∀ k p, x.pending k = some p → p.Concerns maxCores i → t ≤ p.time

structure Kept (maxCores : Option ℕ) (x : Race) : Prop where
  ktime : x.now ≤ ktimeMax
  sampled : ∀ k p, x.pending k = some p → p.time ≤ x.now
  start_le : ∀ i, x.c.start i ≤ x.now
  lastRead_le : x.c.lastRead ≤ x.now
  /-- A waiting sample is not earlier than the `start` it is compared with. -/
  before : ∀ k p i, x.pending k = some p → p.Concerns maxCores i → x.c.start i ≤ p.time
  since : ∀ i < coresRead maxCores, x.c.start i ≠ 0 → x.c.lastRead ≤ x.c.start i
  /-- From its `start` a core is busy, up to a waiting idle sample. -/
  busy : ∀ i < coresRead maxCores, x.c.start i ≠ 0 → ∀ s, x.c.start i ≤ s →
    (∀ k t, x.pending k = some (.idle i t) → s < t) → markedAt x.marks i s = true
  counted : ∀ i < coresRead maxCores,
    x.c.busyNs i ≤ markedTime x.marks i x.c.lastRead
      (if x.c.start i = 0 then x.now else x.c.start i)
  /-- What is in the counter lies in the window of every waiting read. -/
  waiting : ∀ i < coresRead maxCores, ∀ k t, x.pending k = some (.status t) →
    x.c.busyNs i ≤ markedTime x.marks i x.c.lastRead t

theorem Kept.idle {now lastRead : ℕ} (hle : lastRead ≤ now) (hnow : now ≤ ktimeMax) :
    Kept maxCores (.idle now lastRead) where
  ktime := hnow
  sampled _ _ hp := by simp [Race.idle] at hp
  start_le _ := Nat.zero_le _
  lastRead_le := hle
  before _ _ _ _ _ := Nat.zero_le _
  since _ _ h0 := absurd rfl h0
  busy _ _ h0 := absurd rfl h0
  counted _ _ := Nat.zero_le _
  waiting _ _ _ _ _ := Nat.zero_le _

theorem Kept.tick (h : Kept maxCores x) {t : ℕ} (hle : x.now ≤ t) (ht : t ≤ ktimeMax) :
    Kept maxCores { x with now := t } :=
  { h with
    ktime := ht
    sampled := fun k p hp => (h.sampled k p hp).trans hle
    start_le := fun i => (h.start_le i).trans hle
    lastRead_le := h.lastRead_le.trans hle
    counted := fun i hi => by
      refine (h.counted i hi).trans (markedTime_mono x.marks i x.c.lastRead ?_)
      change _ ≤ if x.c.start i = 0 then t else x.c.start i
      split_ifs
      · exact hle
      · exact le_refl _ }

/-- The counter and the running period of a core, up to a sample that no idle sample
precedes. -/
theorem Kept.running_le (h : Kept maxCores x) {i t : ℕ} (hi : i < coresRead maxCores)
    (h0 : x.c.start i ≠ 0) (hle : x.c.start i ≤ t)
    (hwait : ∀ k s, x.pending k = some (.idle i s) → t ≤ s) :
    x.c.busyNs i + (t - x.c.start i) ≤ markedTime x.marks i x.c.lastRead t := by
  have hbefore := h.counted i hi
  rw [if_neg h0] at hbefore
  have hrun : markedTime x.marks i (x.c.start i) t = t - x.c.start i := by
    have hconst := markedTime_const (h := x.marks) (i := i) (a := x.c.start i) (b := t)
      fun s hs hst => h.busy i hi h0 s hs fun k r hk => hst.trans_le (hwait k r hk)
    simpa using hconst
  rw [markedTime_split x.marks i (h.since i hi h0) hle, hrun]
  omega

/-- What a section with the sample `t` reads off core `i`. -/
theorem Kept.busyRead_le (h : Kept maxCores x) {i t : ℕ} (hi : i < coresRead maxCores)
    (ht : t ≤ x.now) (hle : x.c.start i ≤ t)
    (hstopped : x.c.start i = 0 → x.c.busyNs i ≤ markedTime x.marks i x.c.lastRead t)
    (hwait : x.c.start i ≠ 0 → ∀ k s, x.pending k = some (.idle i s) → t ≤ s) :
    busyRead t i x.c ≤ markedTime x.marks i x.c.lastRead t := by
  unfold busyRead
  split_ifs with h0
  · exact hstopped h0
  · have hrun := h.running_le hi h0 hle (hwait h0)
    have hmax := markedTime_le x.marks i x.c.lastRead t
    have hk : x.now ≤ 9223372036854775807 := h.ktime
    rw [u64_elapsed hle (by omega)]
    exact hrun

/-- The time up to which the busy time of core `j` is counted. -/
theorem Kept.until_le (h : Kept maxCores x) (j : ℕ) :
    (if x.c.start j = 0 then x.now else x.c.start j) ≤ x.now := by
  split
  · exact le_refl _
  · exact h.start_le j

theorem Kept.recordBusy (h : Kept maxCores x) {i : ℕ}
    (ho : InOrder maxCores x (.recordBusy i)) :
    Kept maxCores { x with
      c := rocketDevfreqRecordBusy i x.now x.c
      marks := ⟨x.now, i, true⟩ :: x.marks } where
  ktime := h.ktime
  sampled := h.sampled
  start_le j := by
    rcases recordBusy_start_cases i x.now x.c j with hsame | ⟨-, -, hnew⟩
    · exact hsame.trans_le (h.start_le j)
    · exact hnew.le
  lastRead_le := (recordBusy_lastRead i x.now x.c).trans_le h.lastRead_le
  before k p j hp hc := by
    rcases recordBusy_start_cases i x.now x.c j with hsame | ⟨rfl, h0, hnew⟩
    · exact hsame.trans_le (h.before k p j hp hc)
    · exact hnew.trans_le (ho j x.now (.inr ⟨rfl, h0, rfl⟩) k p hp hc)
  since j hj h0 := by
    change (rocketDevfreqRecordBusy i x.now x.c).lastRead ≤ _
    rw [recordBusy_lastRead]
    rcases recordBusy_start_cases i x.now x.c j with hsame | ⟨-, -, hnew⟩
    · exact (h.since j hj (hsame ▸ h0)).trans_eq hsame.symm
    · exact h.lastRead_le.trans_eq hnew.symm
  busy j hj h0 s hs hwait := by
    rcases recordBusy_start_cases i x.now x.c j with hsame | ⟨rfl, -, hnew⟩
    · have hold := h.busy j hj (hsame ▸ h0) s (hsame ▸ hs) hwait
      by_cases hmark : i = j ∧ x.now ≤ s
      · simp [markedAt, hmark]
      · simpa [markedAt, hmark] using hold
    · have hs' : x.now ≤ s := hnew ▸ hs
      simp [markedAt, hs']
  counted j hj := by
    have hold := h.counted j hj
    change (rocketDevfreqRecordBusy i x.now x.c).busyNs j ≤ markedTime _ j
      (rocketDevfreqRecordBusy i x.now x.c).lastRead _
    rw [recordBusy_busyNs, recordBusy_lastRead]
    rcases recordBusy_start_cases i x.now x.c j with hsame | ⟨rfl, h0, hnew⟩
    · change _ ≤ markedTime _ j _ (if (rocketDevfreqRecordBusy i x.now x.c).start j = 0 then _
        else (rocketDevfreqRecordBusy i x.now x.c).start j)
      rw [hsame, markedTime_cons_of_le (h.until_le j)]
      exact hold
    · change _ ≤ markedTime _ j _ (if (rocketDevfreqRecordBusy j x.now x.c).start j = 0 then _
        else (rocketDevfreqRecordBusy j x.now x.c).start j)
      rw [hnew, ite_self, markedTime_cons_of_le (le_refl x.now)]
      simpa [h0] using hold
  waiting j hj k t hp := by
    change (rocketDevfreqRecordBusy i x.now x.c).busyNs j ≤ markedTime _ j
      (rocketDevfreqRecordBusy i x.now x.c).lastRead _
    rw [recordBusy_busyNs, recordBusy_lastRead, markedTime_cons_of_le (h.sampled k _ hp)]
    exact h.waiting j hj k t hp

theorem Kept.idleSample (h : Kept maxCores x) {k : ℕ} (hk : x.pending k = none) (i : ℕ) :
    Kept maxCores { x with
      pending := Function.update x.pending k (some (.idle i x.now))
      marks := ⟨x.now, i, false⟩ :: x.marks } where
  ktime := h.ktime
  sampled j p hp := by
    rcases SlotTable.claimed hp with ⟨-, rfl⟩ | ⟨-, hp⟩
    · exact le_refl _
    · exact h.sampled j p hp
  start_le := h.start_le
  lastRead_le := h.lastRead_le
  before j p e hp hc := by
    rcases SlotTable.claimed hp with ⟨-, rfl⟩ | ⟨-, hp⟩
    · exact h.start_le e
    · exact h.before j p e hp hc
  since := h.since
  busy j hj h0 s hs hwait := by
    have hold := h.busy j hj h0 s hs fun e t he =>
      hwait e t (SlotTable.stays he (by simp [hk]) _)
    have hmark : ¬ (i = j ∧ x.now ≤ s) := by
      rintro ⟨rfl, hle⟩
      have hlt : s < x.now := hwait k x.now (by simp)
      omega
    simpa [markedAt, hmark] using hold
  counted j hj := by
    exact (h.counted j hj).trans_eq (markedTime_cons_of_le (h.until_le j)).symm
  waiting j hj e t hp := by
    rcases SlotTable.claimed hp with ⟨-, hidle⟩ | ⟨-, hp⟩
    · cases hidle
    · exact (h.waiting j hj e t hp).trans_eq
        (markedTime_cons_of_le (h.sampled e _ hp)).symm

theorem Kept.statusSample (h : Kept maxCores x) {k : ℕ} (hk : x.pending k = none) :
    Kept maxCores { x with
      pending := Function.update x.pending k (some (.status x.now)) } :=
  { h with
    sampled := fun j p hp => by
      rcases SlotTable.claimed hp with ⟨-, rfl⟩ | ⟨-, hp⟩
      · exact le_refl _
      · exact h.sampled j p hp
    before := fun j p e hp hc => by
      rcases SlotTable.claimed hp with ⟨-, rfl⟩ | ⟨-, hp⟩
      · exact h.start_le e
      · exact h.before j p e hp hc
    busy := fun j hj h0 s hs hwait => h.busy j hj h0 s hs fun e t he =>
      hwait e t (SlotTable.stays he (by simp [hk]) _)
    waiting := fun j hj e t hp => by
      rcases SlotTable.claimed hp with ⟨-, hnow⟩ | ⟨-, hp⟩
      · obtain rfl := Sample.status.inj hnow
        exact (h.counted j hj).trans (markedTime_mono x.marks j x.c.lastRead (h.until_le j))
      · exact h.waiting j hj e t hp }

/-- A sample that was compared with no running period can go. -/
theorem Kept.drop (h : Kept maxCores x) {k : ℕ}
    (hstop : ∀ i t, x.pending k = some (.idle i t) → i < coresRead maxCores → x.c.start i = 0) :
    Kept maxCores { x with pending := Function.update x.pending k none } :=
  { h with
    sampled := fun j p hp => h.sampled j p (SlotTable.released hp).2
    before := fun j p e hp hc => h.before j p e (SlotTable.released hp).2 hc
    busy := fun j hj h0 s hs hwait => h.busy j hj h0 s hs fun e t he =>
      hwait e t (SlotTable.stays he (fun hk => h0 (hstop j t hk hj)) _)
    waiting := fun j hj e t hp => h.waiting j hj e t (SlotTable.released hp).2 }

/-- The end of a busy period, with the sample that ends it. -/
theorem Kept.stop (h : Kept maxCores x) {k i t : ℕ} (hk : x.pending k = some (.idle i t))
    (hi : i < rocketDfMaxNb) (h0 : x.c.start i ≠ 0)
    (horder : ∀ j p, x.pending j = some p → p.Concerns maxCores i → t ≤ p.time) :
    Kept maxCores { x with
      c := rocketDevfreqRecordIdle i t x.c
      pending := Function.update x.pending k none } := by
  have hlast := recordIdle_lastRead i t x.c
  have hstart := recordIdle_start i t x.c hi
  have hbusy := recordIdle_busyNs i t x.c hi
  have hsame {j : ℕ} := @recordIdle_start_of_ne_zero i t x.c hi j
  have hle := recordIdle_start_le i t x.c hi
  generalize rocketDevfreqRecordIdle i t x.c = c at hlast hstart hbusy hsame hle ⊢
  have hread (hr : i < coresRead maxCores) :
      busyRead t i x.c ≤ markedTime x.marks i x.c.lastRead t :=
    h.busyRead_le hr (h.sampled k _ hk) (h.before k _ i hk rfl) (absurd · h0)
      fun _ e _ he => horder e _ he rfl
  exact {
    ktime := h.ktime
    sampled := fun j p hp => h.sampled j p (SlotTable.released hp).2
    start_le := fun j => (hle j).trans (h.start_le j)
    lastRead_le := hlast.trans_le h.lastRead_le
    before := fun j p e hp hc => (hle e).trans (h.before j p e (SlotTable.released hp).2 hc)
    since := fun j hj hj0 => by
      obtain ⟨-, heq⟩ := hsame hj0
      rw [heq, hlast]
      exact h.since j hj (heq ▸ hj0)
    busy := fun j hj hj0 s hs hwait => by
      obtain ⟨hji, heq⟩ := hsame hj0
      refine h.busy j hj (heq ▸ hj0) s (heq ▸ hs) fun e r he => ?_
      have hne : x.pending k ≠ some (.idle j r) := fun hk' =>
        hji (Sample.idle.inj (Option.some.inj (hk'.symm.trans hk))).1
      exact hwait e r (SlotTable.stays he hne _)
    counted := fun j hj => by
      rw [hbusy, hlast]
      by_cases hji : j = i
      · subst hji
        have hmono := markedTime_mono x.marks j x.c.lastRead (h.sampled k _ hk)
        rw [if_pos rfl, hstart, if_pos rfl, if_pos rfl]
        exact (hread hj).trans hmono
      · rw [if_neg hji, hstart, if_neg hji]
        exact h.counted j hj
    waiting := fun j hj e s hp => by
      obtain ⟨-, hp⟩ := SlotTable.released hp
      rw [hbusy, hlast]
      by_cases hji : j = i
      · subst hji
        have hts : t ≤ s := horder e _ hp hj
        rw [if_pos rfl]
        exact (hread hj).trans (markedTime_mono x.marks j x.c.lastRead hts)
      · rw [if_neg hji]
        exact h.waiting j hj e s hp }

theorem Kept.idleLocked (h : Kept maxCores x) {k i t : ℕ}
    (hk : x.pending k = some (.idle i t)) (ho : InOrder maxCores x (.idleLocked k)) :
    Kept maxCores { x with
      c := rocketDevfreqRecordIdle i t x.c
      pending := Function.update x.pending k none } := by
  by_cases hrun : i < rocketDfMaxNb ∧ x.c.start i ≠ 0
  · exact h.stop hk hrun.1 hrun.2 fun j p hp hc => ho i t (.inl ⟨hrun.2, hrun.1, hk⟩) j p hp hc
  · have hsame : rocketDevfreqRecordIdle i t x.c = x.c := by simp [rocketDevfreqRecordIdle, hrun]
    rw [hsame]
    refine h.drop fun j s hj hr => ?_
    obtain ⟨rfl, rfl⟩ := Sample.idle.inj (Option.some.inj (hk.symm.trans hj))
    by_contra h0
    exact hrun ⟨hr.trans_le (coresRead_le maxCores), h0⟩

theorem Kept.statusLocked (h : Kept maxCores x) {k t : ℕ} (reqRate : ℕ)
    (hk : x.pending k = some (.status t)) (ho : InOrder maxCores x (.statusLocked k reqRate)) :
    Kept maxCores { x with
      c := (rocketDevfreqGetDevStatus maxCores reqRate t x.c).2
      pending := Function.update x.pending k none } := by
  have hlast : (rocketDevfreqGetDevStatus maxCores reqRate t x.c).2.lastRead = t := rfl
  have hstart := getDevStatus_start maxCores reqRate t x.c
  have hbusy (i : ℕ) (hi : i < coresRead maxCores) :
      (rocketDevfreqGetDevStatus maxCores reqRate t x.c).2.busyNs i = 0 :=
    (readUpTo_of_lt t x.c hi).2
  generalize (rocketDevfreqGetDevStatus maxCores reqRate t x.c).2 = c at hlast hstart hbusy ⊢
  have hnow : t ≤ x.now := h.sampled k _ hk
  -- a core that is read and busy is measured from `t` on
  have hnew {j : ℕ} (hj : j < coresRead maxCores) (hj0 : c.start j ≠ 0) :
      c.start j = t ∧ x.c.start j ≠ 0 := by
    have hjs := hstart j
    by_cases h0 : x.c.start j = 0
    · simp [hjs, h0] at hj0
    · simp [hjs, hj, h0]
  exact {
    ktime := h.ktime
    sampled := fun j p hp => h.sampled j p (SlotTable.released hp).2
    start_le := fun j => by
      rw [hstart]
      split_ifs
      · exact hnow
      · exact h.start_le j
    lastRead_le := hlast.trans_le hnow
    before := fun j p e hp hc => by
      obtain ⟨-, hp⟩ := SlotTable.released hp
      rw [hstart]
      split_ifs with hread
      · exact ho e t (.inl ⟨hread.2, hread.1, hk⟩) j p hp hc
      · exact h.before j p e hp hc
    since := fun j hj hj0 => by rw [hlast, (hnew hj hj0).1]
    busy := fun j hj hj0 s hs hwait => by
      obtain ⟨heq, h0⟩ := hnew hj hj0
      have hstarted : x.c.start j ≤ t := h.before k _ j hk hj
      refine h.busy j hj h0 s (hstarted.trans (heq ▸ hs)) fun e r he => ?_
      exact hwait e r (SlotTable.stays he (by simp [hk]) _)
    counted := fun j hj => (hbusy j hj).trans_le (Nat.zero_le _)
    waiting := fun j hj _ _ _ => (hbusy j hj).trans_le (Nat.zero_le _) }

theorem Kept.step (h : Kept maxCores x) {e : Section}
    (hs : restrict (SectionStep maxCores) (InOrder maxCores) x e y) : Kept maxCores y := by
  obtain ⟨hrun, ho⟩ := hs
  unfold SectionStep Section.run at hrun
  cases e with
  | tick t =>
    simp only [Option.ite_none_right_eq_some, Option.some.injEq] at hrun
    obtain ⟨⟨hle, ht⟩, rfl⟩ := hrun
    exact h.tick hle ht
  | recordBusy i =>
    obtain rfl := Option.some.inj hrun
    exact h.recordBusy ho
  | idleSample k i =>
    cases hk : x.pending k with
    | some _ => simp [hk] at hrun
    | none =>
      simp only [hk, Option.some.injEq] at hrun
      exact hrun ▸ h.idleSample hk i
  | idleLocked k =>
    rcases hk : x.pending k with _ | ⟨i, t⟩ | t
    · simp [hk] at hrun
    · simp only [hk, Option.some.injEq] at hrun
      exact hrun ▸ h.idleLocked hk ho
    · simp [hk] at hrun
  | statusSample k =>
    cases hk : x.pending k with
    | some _ => simp [hk] at hrun
    | none =>
      simp only [hk, Option.some.injEq] at hrun
      exact hrun ▸ h.statusSample hk
  | statusLocked k reqRate =>
    rcases hk : x.pending k with _ | ⟨i, t⟩ | t
    · simp [hk] at hrun
    · simp [hk] at hrun
    · simp only [hk, Option.some.injEq] at hrun
      exact hrun ▸ h.statusLocked reqRate hk ho

/-- Runs whose steps are all in order. -/
abbrev OrderedReaches (maxCores : Option ℕ) (x : Race) : Prop :=
  Reachable SectionStart (restrict (SectionStep maxCores) (InOrder maxCores)) x

theorem OrderedReaches.kept (h : OrderedReaches maxCores x) : Kept maxCores x := by
  refine Reachable.invariant ?_ (fun _ _ _ hx hs => hx.step hs) h
  rintro _ ⟨now, lastRead, hle, hnow, rfl⟩
  exact Kept.idle hle hnow

/-- What is added lies after the start of the period. -/
theorem Kept.nonneg (h : Kept maxCores x) {e : Section} {i t : ℕ} (ha : Adds maxCores x e i t) :
    0 ≤ elapsed t (x.c.start i) := by
  have hle : x.c.start i ≤ t := by
    obtain ⟨-, ha⟩ := ha
    cases e with
    | idleLocked k => exact h.before k _ i ha.2 rfl
    | statusLocked k _ => exact h.before k _ i ha.2 ha.1
    | _ => exact ha.elim
  unfold elapsed
  omega

/-- Values below the window are reported as less than the window. -/
theorem busyTime_ne_of_lt {reqRate t : ℕ} {c : Counters} (ht : t ≤ ktimeMax)
    (hlt : ∀ i < coresRead maxCores, busyRead t i c < t - c.lastRead) :
    (rocketDevfreqGetDevStatus maxCores reqRate t c).1.busyTime ≠
      (rocketDevfreqGetDevStatus maxCores reqRate t c).1.totalTime := by
  have hmax : (readUpTo t (coresRead maxCores) c).1 ≤ t - c.lastRead - 1 := by
    refine readUpTo_max_le fun i hi => ?_
    have := hlt i hi
    omega
  have hlast := readUpTo_lastRead t (coresRead maxCores) c
  have hk : t ≤ 9223372036854775807 := ht
  unfold rocketDevfreqGetDevStatus
  generalize readUpTo t (coresRead maxCores) c = r at hmax hlast
  dsimp only
  have hwindow : c.lastRead < t → u64 (elapsed t r.2.lastRead) = t - c.lastRead := by
    intro hlate
    rw [hlast]
    unfold u64 elapsed
    omega
  split_ifs with h0
  · omega
  · omega

theorem Kept.honest (h : Kept maxCores x) {k reqRate t : ℕ}
    (hk : x.pending k = some (.status t)) (ho : InOrder maxCores x (.statusLocked k reqRate))
    (hidle : ∀ i < coresRead maxCores,
      markedTime x.marks i x.c.lastRead t < t - x.c.lastRead) :
    (rocketDevfreqGetDevStatus maxCores reqRate t x.c).1.busyTime ≠
      (rocketDevfreqGetDevStatus maxCores reqRate t x.c).1.totalTime := by
  have hnow : t ≤ x.now := h.sampled k _ hk
  refine busyTime_ne_of_lt (hnow.trans h.ktime) fun i hi => ?_
  refine lt_of_le_of_lt ?_ (hidle i hi)
  refine h.busyRead_le hi hnow (h.before k _ i hk hi) (fun _ => h.waiting i hi k t hk) ?_
  exact fun h0 j s hj => ho i t (.inl ⟨h0, hi, hk⟩) j _ hj rfl

theorem faithful_of_inOrder (h : OrderedReaches maxCores x) {e : Section}
    (ho : InOrder maxCores x e) : Faithful maxCores x e where
  nonneg _ _ ha := h.kept.nonneg ha
  honest k reqRate t he hk hidle := by
    subst he
    exact h.kept.honest hk ho hidle

/-- A section overtakes nobody while only its own thread waits. -/
theorem inOrder_of_alone {e : Section}
    (h : ∀ k p, x.pending k = some p → e = .idleLocked k ∨ ∃ r, e = .statusLocked k r) :
    InOrder maxCores x e := by
  intro i t hm k p hp _
  rcases hm with ⟨-, ha⟩ | ⟨rfl, -, -⟩
  · rcases h k p hp with rfl | ⟨r, rfl⟩
    · exact (congrArg Sample.time (Option.some.inj (ha.2.symm.trans hp))).le
    · exact (congrArg Sample.time (Option.some.inj (ha.2.symm.trans hp))).le
  · rcases h k p hp with h | ⟨r, h⟩
    · cases h
    · cases h

theorem inOrder_tick (t : ℕ) : InOrder maxCores x (.tick t) := by
  rintro i u (⟨-, ha⟩ | ⟨h, -⟩) _ _ _ _
  · exact ha.elim
  · cases h

/-- The state a run of one core leads to. -/
def raceFrom (es : List Section) : Race :=
  (es.foldlM (fun (x : Race) (e : Section) => e.run (some 1) x) (.idle 1 1)).getD (.idle 1 1)

/-- A read waits for the lock with its sample, which falls into a busy period. -/
def waited : Race := raceFrom [.tick 3, .recordBusy 0, .tick 5, .statusSample 1, .tick 7]

theorem waited_faithful : Faithful (some 1) waited (.statusLocked 1 0) := by
  have h0 : OrderedReaches (some 1) (.idle 1 1) := .start ⟨1, 1, le_refl 1, by decide, rfl⟩
  have h1 := h0.step (e := Section.tick 3) ⟨rfl, inOrder_tick 3⟩
  have h2 := h1.step (e := Section.recordBusy 0) ⟨rfl, inOrder_of_alone fun _ _ h => by cases h⟩
  have h3 := h2.step (e := Section.tick 5) ⟨rfl, inOrder_tick 5⟩
  have h4 := h3.step (e := Section.statusSample 1) ⟨rfl, inOrder_of_alone fun _ _ h => by cases h⟩
  have h5 : OrderedReaches (some 1) waited := h4.step (e := Section.tick 7) ⟨rfl, inOrder_tick 7⟩
  refine faithful_of_inOrder h5 (inOrder_of_alone fun k p hp => ?_)
  have hk : k = 1 := by
    by_contra hne
    have hnone : waited.pending k = none := Function.update_of_ne hne _ _
    simp [hnone] at hp
  exact .inr ⟨0, by rw [hk]⟩

/-- A read comes between the sample of core 0's `record_idle` and its section. -/
def overtaken : Race :=
  raceFrom [.recordBusy 0, .tick 5, .idleSample 0 0, .tick 6, .statusSample 1, .statusLocked 1 0]

/-- And the next read, after a window in which core 0 was idle throughout. -/
def nextRead : Race :=
  raceFrom [.recordBusy 0, .tick 5, .idleSample 0 0, .tick 6, .statusSample 1, .statusLocked 1 0,
    .idleLocked 0, .tick 10, .statusSample 1]

abbrev RaceReaches (maxCores : Option ℕ) (x : Race) : Prop :=
  Reachable SectionStart (SectionStep maxCores) x

theorem not_faithful :
    (RaceReaches (some 1) overtaken ∧ ¬ Faithful (some 1) overtaken (.idleLocked 0)) ∧
      RaceReaches (some 1) nextRead ∧ ¬ Faithful (some 1) nextRead (.statusLocked 1 0) := by
  have h0 : RaceReaches (some 1) (.idle 1 1) := .start ⟨1, 1, le_refl 1, by decide, rfl⟩
  have h1 := h0.step (e := Section.recordBusy 0) rfl
  have h2 := h1.step (e := Section.tick 5) rfl
  have h3 := h2.step (e := Section.idleSample 0 0) rfl
  have h4 := h3.step (e := Section.tick 6) rfl
  have h5 := h4.step (e := Section.statusSample 1) rfl
  have h6 : RaceReaches (some 1) overtaken := h5.step (e := Section.statusLocked 1 0) rfl
  have h7 := h6.step (e := Section.idleLocked 0) rfl
  have h8 := h7.step (e := Section.tick 10) rfl
  have h9 : RaceReaches (some 1) nextRead := h8.step (e := Section.statusSample 1) rfl
  refine ⟨⟨h6, fun hf => ?_⟩, h9, fun hf => ?_⟩
  · have hneg := hf.nonneg 0 5 ⟨by decide, by decide, rfl⟩
    exact absurd hneg (by decide)
  · refine hf.honest 1 0 10 rfl rfl ?_ (by decide)
    decide

end RocketNpu.Busy
