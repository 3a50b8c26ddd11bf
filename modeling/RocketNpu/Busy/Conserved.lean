import RocketNpu.Busy.Counters
import RocketNpu.Devfreq.Balance
import RocketNpu.Lib.Marks
import RocketNpu.Lib.Runs

namespace RocketNpu.Busy
open Devfreq Runs Marks

/-- How far a call of `rocket_devfreq_init` gets while devfreq is not registered. -/
inductive InitReply where
  /-- Not to the start of the first window. -/
  | refused
  /-- `devm_devfreq_add_device` fails. -/
  | addFailed
  | registered (maxCores : ℕ)
deriving DecidableEq, Repr

/-- The counters over a run of atomic calls. -/
structure Meter where
  c : Counters
  /-- `max_cores` of the owner's device while devfreq is registered. -/
  owner : Option ℕ
  now : ℕ
  /-- Every record call so far, latest first. -/
  marks : List (Mark ℕ)
  /-- The later of the last `get_dev_status` call and the last registration. -/
  since : ℕ

def Meter.load (now : ℕ) : Meter := ⟨.load, none, now, [], 0⟩

/-- `rocket_devfreq_init` starts the window and leaves `rocket_df_busy` as it is. -/
def Meter.init (reply : InitReply) (x : Meter) : Meter :=
  match x.owner, reply with
  | none, .addFailed => { x with c.lastRead := x.now }
  | none, .registered maxCores =>
    { x with c.lastRead := x.now, owner := some maxCores, since := x.now }
  | _, _ => x

@[simp] theorem Meter.init_refused (x : Meter) : x.init .refused = x := by
  unfold Meter.init
  cases x.owner <;> rfl

theorem Meter.init_registered {x : Meter} (maxCores : ℕ) (h : x.owner = none) :
    x.init (.registered maxCores) =
      { x with c.lastRead := x.now, owner := some maxCores, since := x.now } := by
  simp only [Meter.init, h]

def Meter.record (on : Bool) (i : ℕ) (x : Meter) : Meter :=
  { x with
    c := if on then rocketDevfreqRecordBusy i x.now x.c else rocketDevfreqRecordIdle i x.now x.c
    marks := ⟨x.now, i, on⟩ :: x.marks }

def Meter.getDevStatus (reqRate : ℕ) (x : Meter) : Meter :=
  { x with
    c := (rocketDevfreqGetDevStatus x.owner reqRate x.now x.c).2
    since := x.now }

inductive Call where
  | tick (t : ℕ)
  | record (on : Bool) (i : ℕ)
  | getDevStatus (reqRate : ℕ)
  | init (reply : InitReply)
  | fini

def Call.run : Call → Meter → Meter
  | .tick t, x => { x with now := t }
  | .record on i, x => x.record on i
  | .getDevStatus reqRate, x => x.getDevStatus reqRate
  | .init reply, x => x.init reply
  | .fini, x => { x with owner := none }

/-- Time does not go back, and jobs run on the cores that are counted. -/
def Call.Admissible : Call → Meter → Prop
  | .tick t, x => x.now ≤ t ∧ t ≤ ktimeMax
  | .record _ i, _ => i < rocketDfMaxNb
  | _, _ => True

def CallStep (x : Meter) (e : Call) (y : Meter) : Prop := e.Admissible x ∧ e.run x = y

def CallStart (x : Meter) : Prop := ∃ now ≤ ktimeMax, x = .load now

/-- A registration finds no core busy since before and nothing left uncollected, and no
core becomes busy at tick 0, which `start` cannot hold. -/
def Clean : Meter → Call → Prop
  | x, .record true _ => x.now ≠ 0
  | x, .init (.registered maxCores) =>
    x.owner = none → ∀ i < coresRead (some maxCores),
      x.c.busyNs i = 0 ∧ (x.c.start i = 0 ∨ x.c.start i = x.now)
  | _, _ => True

abbrev CallReaches (x : Meter) : Prop := Reachable CallStart CallStep x

abbrev CleanReaches (x : Meter) : Prop := Reachable CallStart (restrict CallStep Clean) x

/-- What a `get_dev_status` call made now collects for core `i`, before its clamp. -/
def Meter.collected (x : Meter) (i : ℕ) : ℕ :=
  if i < coresRead x.owner then busyRead x.now i (readUpTo x.now i x.c).2 else 0

/-- A read made now collects for every core exactly the time it was marked busy in the window,
which is at most `window_ns`. -/
def Meter.Exact (x : Meter) : Prop :=
  ∀ maxCores, x.owner = some maxCores → ∀ i < maxCores,
    x.collected i = markedTime x.marks i x.since x.now ∧
      x.collected i ≤ u64 (elapsed x.now x.c.lastRead)

/-- The part of core `i`'s current busy period that is not yet in its counter. -/
def Meter.running (x : Meter) (i : ℕ) : ℕ := if x.c.start i = 0 then 0 else x.now - x.c.start i

/-- Counter and running period of each core that is read make up its marked time. -/
def Meter.Accounted (x : Meter) (k : ℕ) : Prop :=
  ∀ i < k, x.c.busyNs i + x.running i = markedTime x.marks i x.since x.now

structure Meter.Conserved (x : Meter) : Prop where
  ktime : x.now ≤ ktimeMax
  late : ∀ m ∈ x.marks, m.time ≤ x.now
  counted : ∀ m ∈ x.marks, m.who < rocketDfMaxNb
  since_le : x.since ≤ x.now
  start_le : ∀ i, x.c.start i ≤ x.now
  marked : ∀ i, marked x.marks i = decide (x.c.start i ≠ 0)
  lastRead : x.owner.isSome → x.c.lastRead = x.since
  accounted : x.Accounted (coresRead x.owner)

variable {x : Meter}

theorem Meter.Conserved.load {now : ℕ} (h : now ≤ ktimeMax) : (Meter.load now).Conserved where
  ktime := h
  late := by simp [Meter.load]
  counted := by simp [Meter.load]
  since_le := Nat.zero_le _
  start_le _ := Nat.zero_le _
  marked _ := rfl
  lastRead := by simp [Meter.load]
  accounted _ hi := absurd hi (by simp [Meter.load, coresRead])

theorem Meter.Conserved.late_of (h : x.Conserved) (i : ℕ) :
    ∀ m ∈ x.marks, m.who = i → m.time ≤ x.now := fun m hm _ => h.late m hm

theorem Meter.Conserved.tick (h : x.Conserved) {t : ℕ} (hle : x.now ≤ t) (ht : t ≤ ktimeMax) :
    Meter.Conserved { x with now := t } where
  ktime := ht
  late m hm := (h.late m hm).trans hle
  counted := h.counted
  since_le := h.since_le.trans hle
  start_le i := (h.start_le i).trans hle
  marked := h.marked
  lastRead := h.lastRead
  accounted i hi := by
    have hnow : x.c.busyNs i + x.running i = markedTime x.marks i x.since x.now :=
      h.accounted i hi
    have hstart := h.start_le i
    change x.c.busyNs i + (if x.c.start i = 0 then 0 else t - x.c.start i) =
      markedTime x.marks i x.since t
    rw [markedTime_split x.marks i h.since_le hle, markedTime_of_late (h.late_of i), h.marked i,
      ← hnow]
    unfold Meter.running
    by_cases h0 : x.c.start i = 0
    · simp [h0]
    · simp only [h0, if_false, ne_eq, not_false_eq_true, decide_true, if_true]
      omega

/-- What is not yet collected of a core that is read fits into the window. -/
theorem Meter.Conserved.accounted_le (h : x.Conserved) {i : ℕ} (hi : i < coresRead x.owner) :
    x.c.busyNs i + x.running i ≤ x.now - x.since := by
  rw [h.accounted i hi]
  exact markedTime_le x.marks i x.since x.now

/-- For a core that is read, the value is what was counted and what runs. -/
theorem Meter.Conserved.busyRead_eq (h : x.Conserved) {i : ℕ} (hi : i < coresRead x.owner) :
    busyRead x.now i x.c = x.c.busyNs i + x.running i := by
  have hle := h.accounted_le hi
  have hk : x.now ≤ 9223372036854775807 := h.ktime
  unfold Meter.running at hle ⊢
  unfold busyRead
  split_ifs with h0
  · rfl
  · rw [if_neg h0] at hle
    exact u64_elapsed (h.start_le i) (by omega)

theorem Meter.record_start (on : Bool) {i : ℕ} (hi : i < rocketDfMaxNb) (j : ℕ) :
    (x.record on i).c.start j =
      if j = i then (if on then (if x.c.start i = 0 then x.now else x.c.start i) else 0)
      else x.c.start j := by
  cases on
  · simpa [Meter.record] using recordIdle_start i x.now x.c hi j
  · have hstart := recordBusy_start i x.now x.c hi j
    by_cases hj : j = i
    · subst hj
      simpa [Meter.record] using hstart
    · simpa [Meter.record, hj] using hstart

/-- A record call moves a running period into the counter, and loses nothing of it. -/
theorem Meter.Conserved.record_total (h : x.Conserved) (on : Bool) {i : ℕ}
    (hi : i < rocketDfMaxNb) {j : ℕ} (hj : j < coresRead x.owner) :
    (x.record on i).c.busyNs j + (x.record on i).running j = x.c.busyNs j + x.running j := by
  have hstart := Meter.record_start (x := x) on hi j
  unfold Meter.running
  rw [hstart]
  cases on
  · have hbusy : (x.record false i).c.busyNs j = if j = i then busyRead x.now i x.c
        else x.c.busyNs j := recordIdle_busyNs i x.now x.c hi j
    rw [hbusy]
    by_cases hji : j = i
    · subst hji
      simpa [Meter.running] using h.busyRead_eq hj
    · simp [hji, Meter.record]
  · have hbusy : (x.record true i).c.busyNs j = x.c.busyNs j :=
      congrFun (recordBusy_busyNs i x.now x.c) j
    rw [hbusy]
    by_cases hji : j = i
    · subst hji
      by_cases h0 : x.c.start j = 0
      · simp [h0, Meter.record]
      · simp [h0, Meter.record]
    · simp [hji, Meter.record]

theorem Meter.Conserved.record (h : x.Conserved) {on : Bool} {i : ℕ} (hi : i < rocketDfMaxNb)
    (hnow : on = true → x.now ≠ 0) : (x.record on i).Conserved where
  ktime := h.ktime
  late m hm := by
    rcases List.mem_cons.mp hm with rfl | hm
    · exact le_refl _
    · exact h.late m hm
  counted m hm := by
    rcases List.mem_cons.mp hm with rfl | hm
    · exact hi
    · exact h.counted m hm
  since_le := h.since_le
  start_le j := by
    have hj := h.start_le j
    rw [Meter.record_start on hi]
    change _ ≤ x.now
    split_ifs with hji _ _
    · exact le_refl _
    · exact hji ▸ hj
    · exact Nat.zero_le _
    · exact hj
  marked j := by
    rw [Meter.record_start on hi]
    by_cases hji : j = i
    · subst hji
      rw [show (x.record on j).marks = ⟨x.now, j, on⟩ :: x.marks from rfl,
        marked_cons_self rfl]
      cases on
      · simp
      · by_cases h0 : x.c.start j = 0
        · simp [h0, hnow rfl]
        · simp [h0]
    · rw [show (x.record on i).marks = ⟨x.now, i, on⟩ :: x.marks from rfl,
        marked_cons_of_ne (Ne.symm hji), if_neg hji]
      exact h.marked j
  lastRead hreg := by
    cases on
    · exact (recordIdle_lastRead i x.now x.c).trans (h.lastRead hreg)
    · exact (recordBusy_lastRead i x.now x.c).trans (h.lastRead hreg)
  accounted j hj := by
    rw [h.record_total on hi hj]
    exact (h.accounted j hj).trans (markedTime_cons_of_le (le_refl x.now)).symm

theorem Meter.Conserved.getDevStatus (h : x.Conserved) (reqRate : ℕ) :
    (x.getDevStatus reqRate).Conserved where
  ktime := h.ktime
  late := h.late
  counted := h.counted
  since_le := le_refl _
  start_le i := by
    change (rocketDevfreqGetDevStatus x.owner reqRate x.now x.c).2.start i ≤ x.now
    rw [getDevStatus_start]
    split_ifs
    · exact le_refl _
    · exact h.start_le i
  marked i := by
    change Marks.marked x.marks i =
      decide ((rocketDevfreqGetDevStatus x.owner reqRate x.now x.c).2.start i ≠ 0)
    have hle := h.start_le i
    rw [getDevStatus_start, h.marked i]
    split_ifs with hbusy
    · have hnow : x.now ≠ 0 := by omega
      simp [hbusy.2, hnow]
    · rfl
  lastRead _ := rfl
  accounted i hi := by
    have hbusy : (x.getDevStatus reqRate).c.busyNs i = 0 := (readUpTo_of_lt x.now x.c hi).2
    have hstart : (x.getDevStatus reqRate).c.start i = if x.c.start i = 0 then 0 else x.now :=
      (readUpTo_of_lt x.now x.c hi).1
    have hnone : markedTime x.marks i x.now x.now = 0 := by simp [markedTime]
    change _ = markedTime x.marks i x.now x.now
    rw [hbusy, hnone]
    have hnow : (x.getDevStatus reqRate).now = x.now := rfl
    unfold Meter.running
    rw [hstart, hnow]
    by_cases h0 : x.c.start i = 0
    · simp [h0]
    · simp [h0]

theorem Meter.Conserved.fini (h : x.Conserved) : Meter.Conserved { x with owner := none } where
  ktime := h.ktime
  late := h.late
  counted := h.counted
  since_le := h.since_le
  start_le := h.start_le
  marked := h.marked
  lastRead hreg := by simp at hreg
  accounted i hi := absurd hi (by simp [coresRead])

theorem Meter.Conserved.init (h : x.Conserved) {reply : InitReply}
    (hc : Clean x (.init reply)) : (x.init reply).Conserved := by
  unfold Meter.init
  cases hown : x.owner with
  | some _ => exact h
  | none =>
    cases reply with
    | refused => exact h
    | addFailed =>
      exact { h with
        lastRead := fun hreg => by simp at hreg
        accounted := fun i hi => absurd hi (by simp [coresRead]) }
    | registered maxCores =>
      refine { h with since_le := le_refl _, lastRead := fun _ => rfl, accounted := ?_ }
      intro i hi
      obtain ⟨hbusy, hstart⟩ := hc hown i hi
      have hnone : markedTime x.marks i x.now x.now = 0 := by simp [markedTime]
      have hrun : x.running i = 0 := by
        unfold Meter.running
        rcases hstart with h0 | hnow
        · simp [h0]
        · simp [hnow]
      change x.c.busyNs i + x.running i = markedTime x.marks i x.now x.now
      rw [hbusy, hrun, hnone]

/-- A call of `rocket_devfreq_init` on the component is a call here with one of the replies. -/
theorem init_follows {n : ℕ} (env : InitEnv n) (core : CorePtr) (d : Fin n) (s : State n)
    (hown : x.owner = s.df.core.map fun _ => n) (hnow : env.now = x.now) :
    ∃ reply,
      (x.init reply).owner = (rocketDevfreqInit env core d s).df.core.map (fun _ => n) ∧
      (x.owner = none → (x.init reply).owner.isSome →
        (x.init reply).c.lastRead = (rocketDevfreqInit env core d s).busyLastRead) := by
  cases hc : s.df.core with
  | some p =>
    have hsome : x.owner = some n := by simp [hown, hc]
    have hsame : rocketDevfreqInit env core d s = s := by simp [rocketDevfreqInit, hc]
    refine ⟨.refused, ?_, fun hnone => by simp [hsome] at hnone⟩
    rw [Meter.init_refused, hsame, hc]
    exact hsome
  | none =>
    have hnone : x.owner = none := by simp [hown, hc]
    cases hreg : (rocketDevfreqInit env core d s).df.core with
    | none => exact ⟨.refused, by simpa using hnone, by simp [hnone]⟩
    | some p =>
      refine ⟨.registered n, by simp [Meter.init_registered n hnone], fun _ _ => ?_⟩
      rw [rocketDevfreqInit_window env hc (by simp [hreg]), hnow, Meter.init_registered n hnone]

theorem Meter.Conserved.step (h : x.Conserved) {e : Call} {y : Meter}
    (hs : restrict CallStep Clean x e y) : y.Conserved := by
  obtain ⟨⟨hadm, rfl⟩, hclean⟩ := hs
  cases e with
  | tick t => exact h.tick hadm.1 hadm.2
  | record on i =>
    refine h.record hadm fun hon => ?_
    subst hon
    exact hclean
  | getDevStatus reqRate => exact h.getDevStatus reqRate
  | init reply => exact h.init hclean
  | fini => exact h.fini

theorem CleanReaches.conserved (h : CleanReaches x) : x.Conserved := by
  refine Reachable.invariant ?_ (fun _ _ _ hx hs => hx.step hs) h
  rintro _ ⟨now, hnow, rfl⟩
  exact Meter.Conserved.load hnow

/-- No mark names a core that has no counter. -/
theorem Meter.Conserved.markedTime_of_le (h : x.Conserved) {i : ℕ} (hi : rocketDfMaxNb ≤ i)
    (a b : ℕ) : markedTime x.marks i a b = 0 := by
  refine markedTime_of_none fun m hm hwho => ?_
  have hlt := h.counted m hm
  omega

theorem Meter.Conserved.window_eq (h : x.Conserved) (hreg : x.owner.isSome) :
    u64 (elapsed x.now x.c.lastRead) = x.now - x.since := by
  have hk : x.now ≤ 9223372036854775807 := h.ktime
  have hle := h.since_le
  rw [h.lastRead hreg]
  unfold u64 elapsed
  omega

theorem Meter.Conserved.collected_eq (h : x.Conserved) {maxCores : ℕ}
    (hreg : x.owner = some maxCores) {i : ℕ} (hi : i < maxCores) :
    x.collected i = markedTime x.marks i x.since x.now := by
  unfold Meter.collected
  by_cases hread : i < coresRead x.owner
  · rw [if_pos hread, busyRead_readUpTo, h.busyRead_eq hread]
    exact h.accounted i hread
  · have hmax : rocketDfMaxNb ≤ i := by
      simp only [hreg, coresRead, Option.getD_some, lt_min_iff] at hread
      omega
    rw [if_neg hread, h.markedTime_of_le hmax]

theorem exact_of_clean (h : CleanReaches x) : x.Exact := by
  intro maxCores hreg i hi
  have hc := h.conserved
  have heq := hc.collected_eq hreg hi
  refine ⟨heq, ?_⟩
  rw [heq, hc.window_eq (by simp [hreg])]
  exact markedTime_le x.marks i x.since x.now

def runFrom (now : ℕ) (calls : List Call) : Meter := calls.foldl (fun x e => e.run x) (.load now)

/-- Core 1 is busy over two reads, and becomes idle between them. -/
def readTwice : Meter :=
  runFrom 1 [.init (.registered 2), .record true 1, .tick 5, .getDevStatus 0, .tick 8,
    .record false 1, .tick 11]

theorem readTwice_exact : readTwice.Exact ∧ readTwice.collected 1 = 3 := by
  have hcore : 1 < rocketDfMaxNb := by decide
  have h0 : CleanReaches (.load 1) := .start ⟨1, by decide, rfl⟩
  have h1 := h0.step (e := Call.init (.registered 2))
    ⟨⟨trivial, rfl⟩, fun _ _ _ => ⟨rfl, .inl rfl⟩⟩
  have h2 := h1.step (e := Call.record true 1) ⟨⟨hcore, rfl⟩, Nat.one_ne_zero⟩
  have h3 := h2.step (e := Call.tick 5) ⟨⟨⟨by decide, by decide⟩, rfl⟩, trivial⟩
  have h4 := h3.step (e := Call.getDevStatus 0) ⟨⟨trivial, rfl⟩, trivial⟩
  have h5 := h4.step (e := Call.tick 8) ⟨⟨⟨by decide, by decide⟩, rfl⟩, trivial⟩
  have h6 := h5.step (e := Call.record false 1) ⟨⟨hcore, rfl⟩, trivial⟩
  have h7 : CleanReaches readTwice :=
    h6.step (e := Call.tick 11) ⟨⟨⟨by decide, by decide⟩, rfl⟩, trivial⟩
  exact ⟨exact_of_clean h7, by decide⟩

/-- Core 1 works while the owner goes and another registers. -/
def rebound : Meter :=
  runFrom 1 [.init (.registered 2), .tick 2, .record true 1, .fini, .tick 4, .record false 1,
    .tick 10, .init (.registered 2), .tick 11]

theorem not_exact : CallReaches rebound ∧ ¬ rebound.Exact := by
  have hcore : 1 < rocketDfMaxNb := by decide
  have h0 : CallReaches (.load 1) := .start ⟨1, by decide, rfl⟩
  have h1 := h0.step (e := Call.init (.registered 2)) ⟨trivial, rfl⟩
  have h2 := h1.step (e := Call.tick 2) ⟨⟨by decide, by decide⟩, rfl⟩
  have h3 := h2.step (e := Call.record true 1) ⟨hcore, rfl⟩
  have h4 := h3.step (e := Call.fini) ⟨trivial, rfl⟩
  have h5 := h4.step (e := Call.tick 4) ⟨⟨by decide, by decide⟩, rfl⟩
  have h6 := h5.step (e := Call.record false 1) ⟨hcore, rfl⟩
  have h7 := h6.step (e := Call.tick 10) ⟨⟨by decide, by decide⟩, rfl⟩
  have h8 := h7.step (e := Call.init (.registered 2)) ⟨trivial, rfl⟩
  have h9 : CallReaches rebound := h8.step (e := Call.tick 11) ⟨⟨by decide, by decide⟩, rfl⟩
  refine ⟨h9, fun hex => ?_⟩
  have hle := (hex 2 rfl 1 (by decide)).2
  exact absurd hle (by decide)

end RocketNpu.Busy
