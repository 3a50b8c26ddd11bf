import Mathlib.Data.Int.Notation
import Mathlib.Order.Nat
import Mathlib.Tactic.SplitIfs
import RocketNpu.Devfreq.State

namespace RocketNpu.Busy
open Devfreq

/-- A signed value stored into a `u64`. -/
def u64 (z : ℤ) : ℕ := (z % 18446744073709551616).toNat

/-- `KTIME_MAX`. -/
def ktimeMax : ℕ := 9223372036854775807

/-- The static counters, in nanoseconds; a `start` of 0 says that the core is not busy. -/
structure Counters where
  start : ℕ → ℕ
  busyNs : ℕ → ℕ
  lastRead : ℕ

def Counters.load : Counters := ⟨fun _ => 0, fun _ => 0, 0⟩

/-- `ktime_to_ns(ktime_sub(now, since))`. -/
def elapsed (now since : ℕ) : ℤ := now - since

/-- `rocket_devfreq_record_busy`, whose sample `now` is taken under the lock. -/
def rocketDevfreqRecordBusy (i now : ℕ) (c : Counters) : Counters :=
  if i < rocketDfMaxNb ∧ c.start i = 0 then { c with start := Function.update c.start i now }
  else c

/-- `rocket_devfreq_record_idle`, with the sample `now` taken before the lock. -/
def rocketDevfreqRecordIdle (i now : ℕ) (c : Counters) : Counters :=
  if i < rocketDfMaxNb ∧ c.start i ≠ 0 then
    { c with
      busyNs := Function.update c.busyNs i (u64 (c.busyNs i + elapsed now (c.start i)))
      start := Function.update c.start i 0 }
  else c

/-- What one round of the loop in `rocket_devfreq_get_dev_status` reads for core `i`: the
period that is still running counts up to `now`. -/
def busyRead (now i : ℕ) (c : Counters) : ℕ :=
  if c.start i = 0 then c.busyNs i else u64 (c.busyNs i + elapsed now (c.start i))

/-- And what it leaves behind: the counter empty, a running period measured from `now` on. -/
def busyReset (now i : ℕ) (c : Counters) : Counters :=
  { c with
    start := if c.start i = 0 then c.start else Function.update c.start i now
    busyNs := Function.update c.busyNs i 0 }

/-- The loop with its `max_busy`. -/
def readUpTo (now : ℕ) : ℕ → Counters → ℕ × Counters
  | 0, c => (0, c)
  | i + 1, c =>
    match readUpTo now i c with
    | (maxBusy, c) => (max maxBusy (busyRead now i c), busyReset now i c)

structure DevStatus where
  totalTime : ℕ
  busyTime : ℕ
  currentFrequency : ℕ
deriving DecidableEq, Repr

/-- The cores `rocket_devfreq_get_dev_status` looks at; without an owner there are none. -/
def coresRead (maxCores : Option ℕ) : ℕ := min (maxCores.getD 0) rocketDfMaxNb

/-- `rocket_devfreq_get_dev_status` with its sample `now`, the `max_cores` of the owner's
device and the `req_rate` read under `rocket_df.lock`. -/
def rocketDevfreqGetDevStatus (maxCores : Option ℕ) (reqRate now : ℕ) (c : Counters) :
    DevStatus × Counters :=
  match readUpTo now (coresRead maxCores) c with
  | (maxBusy, c) =>
    let window := u64 (elapsed now c.lastRead)
    -- never zero, and never busy for longer than that
    let total := if window = 0 then 1 else window
    (⟨total, min maxBusy total, reqRate⟩, { c with lastRead := now })

theorem coresRead_le (owner : Option ℕ) : coresRead owner ≤ rocketDfMaxNb := min_le_right _ _

/-- A difference that is not negative is added as it is. -/
theorem u64_elapsed {b now since : ℕ} (hle : since ≤ now)
    (h : b + (now - since) < 18446744073709551616) :
    u64 (b + elapsed now since) = b + (now - since) := by
  unfold u64 elapsed
  omega

theorem recordBusy_start (i now : ℕ) (c : Counters) (hi : i < rocketDfMaxNb) (j : ℕ) :
    (rocketDevfreqRecordBusy i now c).start j =
      if j = i ∧ c.start i = 0 then now else c.start j := by
  unfold rocketDevfreqRecordBusy
  by_cases h0 : c.start i = 0
  · by_cases hj : j = i
    · simp [hi, h0, hj]
    · simp [hi, h0, hj]
  · simp [h0]

theorem recordBusy_start_cases (i now : ℕ) (c : Counters) (j : ℕ) :
    (rocketDevfreqRecordBusy i now c).start j = c.start j ∨
      j = i ∧ c.start i = 0 ∧ (rocketDevfreqRecordBusy i now c).start j = now := by
  by_cases hi : i < rocketDfMaxNb
  · rw [recordBusy_start i now c hi j]
    split_ifs with hj
    · exact .inr ⟨hj.1, hj.2, rfl⟩
    · exact .inl rfl
  · exact .inl (by simp [rocketDevfreqRecordBusy, hi])

theorem recordBusy_busyNs (i now : ℕ) (c : Counters) :
    (rocketDevfreqRecordBusy i now c).busyNs = c.busyNs := by
  unfold rocketDevfreqRecordBusy
  split_ifs <;> rfl

theorem recordBusy_lastRead (i now : ℕ) (c : Counters) :
    (rocketDevfreqRecordBusy i now c).lastRead = c.lastRead := by
  unfold rocketDevfreqRecordBusy
  split_ifs <;> rfl

theorem recordIdle_start (i now : ℕ) (c : Counters) (hi : i < rocketDfMaxNb) (j : ℕ) :
    (rocketDevfreqRecordIdle i now c).start j = if j = i then 0 else c.start j := by
  unfold rocketDevfreqRecordIdle
  by_cases h0 : c.start i = 0
  · by_cases hj : j = i
    · simp [h0, hj]
    · simp [h0, hj]
  · by_cases hj : j = i
    · simp [hi, h0, hj]
    · simp [hi, h0, hj]

theorem recordIdle_start_of_ne_zero {i now : ℕ} {c : Counters} (hi : i < rocketDfMaxNb) {j : ℕ}
    (h0 : (rocketDevfreqRecordIdle i now c).start j ≠ 0) :
    j ≠ i ∧ (rocketDevfreqRecordIdle i now c).start j = c.start j := by
  rw [recordIdle_start i now c hi] at h0 ⊢
  by_cases hji : j = i
  · simp [hji] at h0
  · exact ⟨hji, if_neg hji⟩

theorem recordIdle_start_le (i now : ℕ) (c : Counters) (hi : i < rocketDfMaxNb) (j : ℕ) :
    (rocketDevfreqRecordIdle i now c).start j ≤ c.start j := by
  by_cases h0 : (rocketDevfreqRecordIdle i now c).start j = 0
  · exact h0 ▸ Nat.zero_le _
  · exact (recordIdle_start_of_ne_zero hi h0).2.le

theorem recordIdle_busyNs (i now : ℕ) (c : Counters) (hi : i < rocketDfMaxNb) (j : ℕ) :
    (rocketDevfreqRecordIdle i now c).busyNs j =
      if j = i then busyRead now i c else c.busyNs j := by
  unfold rocketDevfreqRecordIdle busyRead
  by_cases h0 : c.start i = 0
  · by_cases hj : j = i
    · simp [h0, hj]
    · simp [h0, hj]
  · by_cases hj : j = i
    · simp [hi, h0, hj]
    · simp [hi, h0, hj]

theorem recordIdle_lastRead (i now : ℕ) (c : Counters) :
    (rocketDevfreqRecordIdle i now c).lastRead = c.lastRead := by
  unfold rocketDevfreqRecordIdle
  split_ifs <;> rfl

theorem busyReset_start_of_ne {now i j : ℕ} (c : Counters) (h : j ≠ i) :
    (busyReset now i c).start j = c.start j := by
  unfold busyReset
  dsimp only
  split_ifs
  · rfl
  · simp [h]

theorem busyReset_busyNs_of_ne {now i j : ℕ} (c : Counters) (h : j ≠ i) :
    (busyReset now i c).busyNs j = c.busyNs j := by
  simp [busyReset, h]

theorem readUpTo_lastRead (now k : ℕ) (c : Counters) :
    (readUpTo now k c).2.lastRead = c.lastRead := by
  induction k with
  | zero => rfl
  | succ k ih => exact ih

/-- The first `k` rounds leave the other cores alone. -/
theorem readUpTo_of_le (now : ℕ) (c : Counters) {k j : ℕ} (h : k ≤ j) :
    (readUpTo now k c).2.start j = c.start j ∧ (readUpTo now k c).2.busyNs j = c.busyNs j := by
  induction k with
  | zero => exact ⟨rfl, rfl⟩
  | succ k ih =>
    obtain ⟨h1, h2⟩ := ih (by omega)
    have hne : j ≠ k := by omega
    exact ⟨(busyReset_start_of_ne _ hne).trans h1, (busyReset_busyNs_of_ne _ hne).trans h2⟩

/-- Each round meets its core as the call found it. -/
theorem busyRead_readUpTo (now : ℕ) (c : Counters) (i : ℕ) :
    busyRead now i (readUpTo now i c).2 = busyRead now i c := by
  obtain ⟨h1, h2⟩ := readUpTo_of_le now c (le_refl i)
  simp [busyRead, h1, h2]

theorem readUpTo_of_lt (now : ℕ) (c : Counters) {k j : ℕ} (h : j < k) :
    (readUpTo now k c).2.start j = (if c.start j = 0 then 0 else now) ∧
      (readUpTo now k c).2.busyNs j = 0 := by
  induction k with
  | zero => omega
  | succ k ih =>
    by_cases hjk : j = k
    · subst hjk
      obtain ⟨h1, -⟩ := readUpTo_of_le now c (le_refl j)
      change (busyReset now j (readUpTo now j c).2).start j = _ ∧
        (busyReset now j (readUpTo now j c).2).busyNs j = 0
      unfold busyReset
      rw [h1]
      refine ⟨?_, by simp⟩
      split_ifs with h0
      · exact h1.trans h0
      · simp
    · obtain ⟨h1, h2⟩ := ih (by omega)
      exact ⟨(busyReset_start_of_ne _ hjk).trans h1, (busyReset_busyNs_of_ne _ hjk).trans h2⟩

/-- After a read a core that is busy is measured from now on, and its counter is empty. -/
theorem getDevStatus_start (owner : Option ℕ) (reqRate now : ℕ) (c : Counters) (i : ℕ) :
    (rocketDevfreqGetDevStatus owner reqRate now c).2.start i =
      if i < coresRead owner ∧ c.start i ≠ 0 then now else c.start i := by
  change (readUpTo now (coresRead owner) c).2.start i = _
  by_cases hi : i < coresRead owner
  · rw [(readUpTo_of_lt now c hi).1]
    by_cases h0 : c.start i = 0
    · simp [h0]
    · simp [h0, hi]
  · rw [(readUpTo_of_le now c (not_lt.mp hi)).1]
    simp [hi]

/-- The largest value is one of those read, or zero. -/
theorem readUpTo_max_le {now : ℕ} {c : Counters} {k b : ℕ} (h : ∀ i < k, busyRead now i c ≤ b) :
    (readUpTo now k c).1 ≤ b := by
  induction k with
  | zero => exact Nat.zero_le b
  | succ k ih =>
    apply max_le (ih fun i hi => h i (by omega))
    rw [busyRead_readUpTo]
    exact h k (by omega)

end RocketNpu.Busy
