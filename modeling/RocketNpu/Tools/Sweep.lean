import Mathlib.Algebra.BigOperators.Group.List.Basic
import Mathlib.Algebra.Group.Int.Defs
import Mathlib.Order.Defs.LinearOrder
import Mathlib.Tactic.Abel
import RocketNpu.Devfreq.State

namespace RocketNpu.Tools

/-- `min_freq` and `max_freq` of the device, in Hz. -/
structure Range where
  min : ℕ
  max : ℕ
deriving DecidableEq, Repr

/-- A line of `schedstat`: nanoseconds on the CPU, nanoseconds spent waiting for it, and timeslices,
none of which gets near what the 64 bits of the shell's numbers hold. -/
@[ext] structure Schedstat where
  work : ℤ
  wait : ℤ
  slices : ℤ
deriving DecidableEq, Repr

/-- What the machine answers while one frequency is tried: which writes it takes, what `cur_freq`
reads then, the threads before and after the benchmark, whether that ends well, and its report,
whatever a report is. -/
structure StepEnv (R : Type*) where
  floorOk : Bool
  maxOk : Bool
  minOk : Bool
  cur : ℕ
  before : ℕ → Schedstat
  bench : Bool
  after : ℕ → Schedstat
  report : Option R

/-- A line of the table, with the range that was set when it was measured. -/
structure Row (R : Type*) where
  freq : ℕ
  range : Range
  stat : Schedstat
  report : R

structure Sweep (R : Type*) where
  range : Range
  /-- Every range that was set, latest first. -/
  history : List Range
  rows : List (Row R)

variable {R : Type*}

def Sweep.start (r : Range) : Sweep R := ⟨r, [r], []⟩

def Sweep.set (s : Sweep R) (r : Range) : Sweep R :=
  { s with range := r, history := r :: s.history }

/-- A write of nothing is refused. -/
def teeMin (ok : Bool) (v : Option ℕ) (s : Sweep R) : Sweep R :=
  match ok, v with
  | true, some v => s.set { s.range with min := v }
  | _, _ => s

def teeMax (ok : Bool) (v : Option ℕ) (s : Sweep R) : Sweep R :=
  match ok, v with
  | true, some v => s.set { s.range with max := v }
  | _, _ => s

def snap (tids : List ℕ) (stat : ℕ → Schedstat) : List (ℕ × Schedstat) :=
  tids.map fun t => (t, stat t)

/-- One line of the second snapshot against the first. -/
def addDelta (b : List (ℕ × Schedstat)) (sum : Schedstat) (line : ℕ × Schedstat) :
    Option Schedstat :=
  (b.find? fun l => l.1 = line.1).map fun l =>
    ⟨sum.work + line.2.work - l.2.work, sum.wait + line.2.wait - l.2.wait,
      sum.slices + line.2.slices - l.2.slices⟩

def deltas (a b : List (ℕ × Schedstat)) : Option Schedstat := a.foldlM (addDelta b) ⟨0, 0, 0⟩

/-- `$((F * 1000000))`, which the shell computes with signed numbers of 64 bits; the device takes
no negative one. -/
def hertz (f : ℕ) : Option ℕ :=
  let hz := (BitVec.ofNat 64 (f * 1000000)).toInt
  if 0 ≤ hz then some hz.toNat else none

/-- One round of the loop, for a frequency in MHz. -/
def round (floor : Option ℕ) (tids : List ℕ) (f : ℕ) (env : StepEnv R) (s : Sweep R) : Sweep R :=
  let s := teeMin env.floorOk floor s
  match hertz f with
  | none => s
  | some hz =>
    if env.maxOk = false then s
    else
      let s := teeMax true (some hz) s
      if env.minOk = false then s
      else
        let s := teeMin true (some hz) s
        if env.cur ≠ hz then s
        else if env.bench = false then s
        else
          match deltas (snap tids env.after) (snap tids env.before), env.report with
          | some d, some r => { s with rows := s.rows ++ [⟨f, s.range, d, r⟩] }
          -- without a report the round is given up
          | _, _ => s

def rounds (floor : Option ℕ) (tids : List ℕ) : List (ℕ × StepEnv R) → Sweep R → Sweep R
  | [], s => s
  | (f, env) :: l, s => rounds floor tids l (round floor tids f env s)

/-- What the script finds when it is started, and what it meets at its end. -/
structure SweepEnv (R : Type*) where
  dev : Bool
  python : Bool
  venv : Bool
  available : List ℕ
  tids : List ℕ
  step : ℕ → StepEnv R
  floorOk : Bool
  ceilingOk : Bool

def defaultSteps : List ℕ := [200, 300, 400, 500, 600, 700]

/-- The frequencies that are tried, each with what the machine answers to it. -/
def SweepEnv.rounds (env : SweepEnv R) (args : List ℕ) : List (ℕ × StepEnv R) :=
  (if args = [] then defaultSteps else args).zipIdx.map fun p => (p.1, env.step p.2)

/-- The whole script, with its exit status where it gives up before it touches anything. -/
def npuSweep (env : SweepEnv R) (args : List ℕ) (s : Sweep R) : ℕ × Sweep R :=
  if env.dev = false ∨ env.python = false ∨ env.venv = false ∨ env.tids = [] then (1, s)
  else
    let s := rounds env.available.min? env.tids (env.rounds args) s
    (0, teeMax env.ceilingOk env.available.max? (teeMin env.floorOk env.available.min? s))

/-- What the threads did in all from one snapshot to the other. -/
def total (tids : List ℕ) (before after : ℕ → Schedstat) : Schedstat :=
  ⟨(tids.map fun t => (after t).work - (before t).work).sum,
    (tids.map fun t => (after t).wait - (before t).wait).sum,
    (tids.map fun t => (after t).slices - (before t).slices).sum⟩

theorem deltas_snap (tids : List ℕ) (before after : ℕ → Schedstat) :
    deltas (snap tids after) (snap tids before) = some (total tids before after) := by
  have hfind {t : ℕ} (ht : t ∈ tids) :
      (snap tids before).find? (fun l => l.1 = t) = some (t, before t) := by
    induction tids with
    | nil => simp at ht
    | cons u l ih =>
      by_cases hu : u = t
      · subst hu
        simp [snap]
      · have hmem : t ∈ l := (List.mem_cons.mp ht).resolve_left (Ne.symm hu)
        simpa [snap, hu] using ih hmem
  have hrun (l : List ℕ) (hl : ∀ t ∈ l, t ∈ tids) (sum : Schedstat) :
      (snap l after).foldlM (addDelta (snap tids before)) sum =
        some ⟨sum.work + (total l before after).work, sum.wait + (total l before after).wait,
          sum.slices + (total l before after).slices⟩ := by
    induction l generalizing sum with
    | nil => simp [snap, total]
    | cons t l ih =>
      have hstep : addDelta (snap tids before) sum (t, after t) =
          some ⟨sum.work + (after t).work - (before t).work,
            sum.wait + (after t).wait - (before t).wait,
            sum.slices + (after t).slices - (before t).slices⟩ := by
        simp [addDelta, hfind (hl t List.mem_cons_self)]
      have hrest := ih (fun u hu => hl u (List.mem_cons_of_mem t hu))
        ⟨sum.work + (after t).work - (before t).work,
          sum.wait + (after t).wait - (before t).wait,
          sum.slices + (after t).slices - (before t).slices⟩
      show (addDelta (snap tids before) sum (t, after t) >>= fun s =>
        (snap l after).foldlM (addDelta (snap tids before)) s) = _
      rw [hstep]
      show (snap l after).foldlM (addDelta (snap tids before)) _ = _
      rw [hrest]
      simp only [total, List.map_cons, List.sum_cons]
      congr 2 <;> omega
  unfold deltas
  simpa using hrun tids (fun _ h => h) ⟨0, 0, 0⟩

@[simp] theorem teeMin_rows (ok : Bool) (v : Option ℕ) (s : Sweep R) :
    (teeMin ok v s).rows = s.rows := by
  unfold teeMin
  split <;> rfl

@[simp] theorem teeMax_rows (ok : Bool) (v : Option ℕ) (s : Sweep R) :
    (teeMax ok v s).rows = s.rows := by
  unfold teeMax
  split <;> rfl

/-- The three writes of a round that takes them. -/
def pin (floor : Option ℕ) (hz : ℕ) (env : StepEnv R) (s : Sweep R) : Sweep R :=
  teeMin true (some hz) (teeMax true (some hz) (teeMin env.floorOk floor s))

@[simp] theorem pin_rows (floor : Option ℕ) (hz : ℕ) (env : StepEnv R) (s : Sweep R) :
    (pin floor hz env s).rows = s.rows := by
  simp [pin]

/-- The row was measured in a round for its frequency, pinned to it. -/
structure Row.Pinned (tids : List ℕ) (f : ℕ) (env : StepEnv R) (row : Row R) : Prop where
  freq : row.freq = f
  range : row.range = ⟨f * 1000000, f * 1000000⟩
  cur : env.cur = f * 1000000
  report : env.report = some row.report
  stat : row.stat = total tids env.before env.after

/-- A product of less than 63 bits is what it should be. -/
theorem hertz_eq {f : ℕ} (hf : f * 1000000 < 2 ^ 63) : hertz f = some (f * 1000000) := by
  have hint : (BitVec.ofNat 64 (f * 1000000)).toInt = (f * 1000000 : ℕ) := by
    rw [BitVec.toInt_eq_toNat_of_lt]
    · rw [BitVec.toNat_ofNat, Nat.mod_eq_of_lt (by omega)]
    · rw [BitVec.toNat_ofNat, Nat.mod_eq_of_lt (by omega)]
      omega
  unfold hertz
  simp only [hint, Int.natCast_nonneg, if_true, Int.toNat_natCast]

/-- What one round can do: give up with the range as far as it got, or add a line for the
frequency it is pinned to. -/
inductive Round (floor : Option ℕ) (tids : List ℕ) (f : ℕ) (env : StepEnv R) (s : Sweep R) :
    Sweep R → Prop where
  | unset : env.maxOk = false → Round floor tids f env s (teeMin env.floorOk floor s)
  | halfway : env.maxOk = true →
      Round floor tids f env s (teeMax true (some (f * 1000000)) (teeMin env.floorOk floor s))
  | skipped : env.maxOk = true → Round floor tids f env s (pin floor (f * 1000000) env s)
  | measured {row : Row R} : env.maxOk = true → row.Pinned tids f env →
      Round floor tids f env s
        { pin floor (f * 1000000) env s with
          rows := (pin floor (f * 1000000) env s).rows ++ [row] }

theorem round_cases (floor : Option ℕ) (tids : List ℕ) {f : ℕ} (hf : f * 1000000 < 2 ^ 63)
    (env : StepEnv R) (s : Sweep R) : Round floor tids f env s (round floor tids f env s) := by
  unfold round
  simp only [hertz_eq hf]
  by_cases hmax : env.maxOk = false
  · rw [if_pos hmax]
    exact .unset hmax
  rw [if_neg hmax]
  have hmax' : env.maxOk = true := by simpa using hmax
  by_cases hmin : env.minOk = false
  · rw [if_pos hmin]
    exact .halfway hmax'
  rw [if_neg hmin]
  split_ifs with hcur hbench
  · exact .skipped hmax'
  · exact .skipped hmax'
  · rw [deltas_snap]
    cases hr : env.report with
    | none => exact .skipped hmax'
    | some r =>
      have hrow : (⟨f, ⟨f * 1000000, f * 1000000⟩, total tids env.before env.after, r⟩ :
          Row R).Pinned tids f env := ⟨rfl, rfl, not_not.mp hcur, hr, rfl⟩
      exact .measured hmax' hrow

theorem rounds_rows (floor : Option ℕ) (tids : List ℕ) {l : List (ℕ × StepEnv R)}
    (hl : ∀ p ∈ l, p.1 * 1000000 < 2 ^ 63) (s : Sweep R) :
    ∃ new, (rounds floor tids l s).rows = s.rows ++ new ∧
      (new.map Row.freq).Sublist (l.map Prod.fst) ∧
      ∀ row ∈ new, ∃ env, (row.freq, env) ∈ l ∧ row.Pinned tids row.freq env := by
  induction l generalizing s with
  | nil => exact ⟨[], by simp [rounds], by simp, by simp⟩
  | cons p l ih =>
    obtain ⟨f, env⟩ := p
    have hf : f * 1000000 < 2 ^ 63 := hl (f, env) List.mem_cons_self
    obtain ⟨new, hrows, hsub, hnew⟩ :=
      ih (fun p hp => hl p (List.mem_cons_of_mem _ hp)) (round floor tids f env s)
    have hlater : ∀ row ∈ new, ∃ e, (row.freq, e) ∈ (f, env) :: l ∧
        row.Pinned tids row.freq e := by
      intro row hrow
      obtain ⟨e, he, hp⟩ := hnew row hrow
      exact ⟨e, List.mem_cons_of_mem _ he, hp⟩
    have hsame (h : (round floor tids f env s).rows = s.rows) :
        ∃ new, (rounds floor tids ((f, env) :: l) s).rows = s.rows ++ new ∧
          (new.map Row.freq).Sublist (((f, env) :: l).map Prod.fst) ∧
          ∀ row ∈ new, ∃ e, (row.freq, e) ∈ (f, env) :: l ∧ row.Pinned tids row.freq e :=
      ⟨new, by rw [rounds, hrows, h], hsub.cons f, hlater⟩
    have hcases := round_cases floor tids hf env s
    generalize ht : round floor tids f env s = t at hcases hrows hsame
    cases hcases with
    | unset _ => exact hsame (by simp)
    | halfway _ => exact hsame (by simp)
    | skipped _ => exact hsame (by simp)
    | @measured row _ hp =>
      have hfreq := hp.freq
      refine ⟨row :: new, ?_, ?_, ?_⟩
      · rw [rounds, ht, hrows]
        simp
      · rw [List.map_cons, hfreq]
        exact hsub.cons_cons f
      · intro row' hrow'
        rcases List.mem_cons.mp hrow' with rfl | hrow'
        · exact ⟨env, hfreq ▸ List.mem_cons_self, hfreq.symm ▸ hp⟩
        · exact hlater row' hrow'

def Sweep.Ordered (s : Sweep R) : Prop := ∀ r ∈ s.history, r.min ≤ r.max

/-- The steps of a sweep are the arguments, or the default ones, and fit the shell's numbers when
these do. -/
theorem fits_rounds (env : SweepEnv R) {args : List ℕ}
    (hargs : ∀ f ∈ args, f * 1000000 < 2 ^ 63) : ∀ p ∈ env.rounds args, p.1 * 1000000 < 2 ^ 63 := by
  intro p hp
  obtain ⟨q, hq, rfl⟩ := List.mem_map.mp hp
  have hmem := List.fst_mem_of_mem_zipIdx hq
  have hdefault : ∀ f ∈ defaultSteps, f * 1000000 < 2 ^ 63 := by decide
  split_ifs at hmem
  · exact hdefault _ hmem
  · exact hargs _ hmem

/-- Every line of the table is for a frequency that was asked for, in that order and each at most
as often, and was measured while both ends of the range and the clock were at that frequency. -/
theorem npuSweep_rows (env : SweepEnv R) {args : List ℕ}
    (hargs : ∀ f ∈ args, f * 1000000 < 2 ^ 63) (r : Range) :
    ((npuSweep env args (.start r)).2.rows.map Row.freq).Sublist
        ((env.rounds args).map Prod.fst) ∧
      ∀ row ∈ (npuSweep env args (.start r)).2.rows,
        ∃ e, (row.freq, e) ∈ env.rounds args ∧ row.Pinned env.tids row.freq e := by
  unfold npuSweep
  split_ifs
  · simp [Sweep.start]
  · obtain ⟨new, hrows, hsub, hnew⟩ :=
      rounds_rows env.available.min? env.tids (fits_rounds env hargs) (.start r)
    have hnil : (rounds env.available.min? env.tids (env.rounds args) (.start r)).rows = new :=
      hrows
    simpa [hnil] using ⟨hsub, hnew⟩

/-- A machine that takes every write, with the rates of the driver's table. -/
def SweepEnv.smooth (cur : ℕ → ℕ) : SweepEnv Unit where
  dev := true
  python := true
  venv := true
  available := Devfreq.oppTable
  tids := [51]
  step k := ⟨true, true, true, cur k, fun _ => ⟨0, 0, 0⟩, true, fun _ => ⟨5, 7, 42⟩, some ()⟩
  floorOk := true
  ceilingOk := true

/-- A sweep over two steps on a clock that follows the second one only. -/
theorem npuSweep_rows_second :
    let s := (npuSweep (.smooth fun _ => 600000000) [200, 600] (.start ⟨0, 0⟩)).2
    s.rows.map Row.freq = [600] ∧
      ∀ row ∈ s.rows, row.range = ⟨600000000, 600000000⟩ ∧ row.stat = ⟨5, 7, 42⟩ := by
  have hargs : ∀ f ∈ [200, 600], f * 1000000 < 2 ^ 63 := by decide
  obtain ⟨-, hrows⟩ := npuSweep_rows (.smooth fun _ => 600000000) hargs ⟨0, 0⟩
  have hfreq : ((npuSweep (.smooth fun _ => 600000000) [200, 600] (.start ⟨0, 0⟩)).2.rows.map
      Row.freq) = [600] := by decide
  refine ⟨hfreq, fun row hrow => ?_⟩
  obtain ⟨e, he, hp⟩ := hrows row hrow
  have hin : row.freq ∈ [600] := hfreq ▸ List.mem_map_of_mem hrow
  rw [List.mem_singleton.mp hin] at he hp
  obtain ⟨q, -, hq⟩ := List.mem_map.mp he
  obtain rfl := (Prod.mk.inj hq).2
  exact ⟨hp.range, hp.stat⟩

end RocketNpu.Tools
