import Mathlib.Order.Interval.Finset.Nat

namespace RocketNpu.Marks

variable {ι : Type*} [DecidableEq ι]

/-- From `time` on, until its next mark, `who` is on or off. -/
structure Mark (ι : Type*) where
  time : ℕ
  who : ι
  on : Bool

/-- Whether `i` is on at the tick `t`, by a history with the latest mark first. -/
def markedAt : List (Mark ι) → ι → ℕ → Bool
  | [], _, _ => false
  | m :: past, i, t => if m.who = i ∧ m.time ≤ t then m.on else markedAt past i t

/-- What the latest mark of `i` says. -/
def marked : List (Mark ι) → ι → Bool
  | [], _ => false
  | m :: past, i => if m.who = i then m.on else marked past i

/-- For how many ticks of `[a, b)` `i` is on. -/
def markedTime (h : List (Mark ι)) (i : ι) (a b : ℕ) : ℕ :=
  ((Finset.Ico a b).filter fun t => markedAt h i t = true).card

variable {h : List (Mark ι)} {m : Mark ι} {i : ι} {a b c t : ℕ}

theorem markedTime_le (h : List (Mark ι)) (i : ι) (a b : ℕ) : markedTime h i a b ≤ b - a := by
  simpa [markedTime] using Finset.card_filter_le (Finset.Ico a b) _

theorem markedTime_split (h : List (Mark ι)) (i : ι) (hab : a ≤ b) (hbc : b ≤ c) :
    markedTime h i a c = markedTime h i a b + markedTime h i b c := by
  unfold markedTime
  rw [← Finset.Ico_union_Ico_eq_Ico hab hbc, Finset.filter_union]
  apply Finset.card_union_of_disjoint
  exact Finset.disjoint_filter_filter (Finset.Ico_disjoint_Ico_consecutive a b c)

theorem markedTime_congr {h' : List (Mark ι)}
    (hmark : ∀ t, a ≤ t → t < b → markedAt h' i t = markedAt h i t) :
    markedTime h' i a b = markedTime h i a b := by
  unfold markedTime
  congr 1
  apply Finset.filter_congr
  intro t ht
  obtain ⟨hat, htb⟩ := Finset.mem_Ico.mp ht
  rw [hmark t hat htb]

/-- A stretch in which nothing changes counts whole or not at all. -/
theorem markedTime_const {on : Bool} (hmark : ∀ t, a ≤ t → t < b → markedAt h i t = on) :
    markedTime h i a b = if on then b - a else 0 := by
  have hfilter : ((Finset.Ico a b).filter fun t => markedAt h i t = true) =
      if on then Finset.Ico a b else ∅ := by
    ext t
    have ht := hmark t
    cases on <;> simp_all
  rw [markedTime, hfilter]
  cases on <;> simp

/-- Who has no mark is never on. -/
theorem markedAt_of_none (hnone : ∀ m ∈ h, m.who ≠ i) : markedAt h i t = false := by
  induction h with
  | nil => rfl
  | cons m past ih =>
    have hm : m.who ≠ i := hnone m List.mem_cons_self
    have hpast := ih fun k hk => hnone k (List.mem_cons_of_mem m hk)
    simpa [markedAt, hm] using hpast

theorem markedTime_of_none (hnone : ∀ m ∈ h, m.who ≠ i) : markedTime h i a b = 0 := by
  have hconst : markedTime h i a b = if false then b - a else 0 :=
    markedTime_const fun _ _ _ => markedAt_of_none hnone
  simpa using hconst

theorem markedAt_of_late (hlate : ∀ m ∈ h, m.who = i → m.time ≤ t) :
    markedAt h i t = marked h i := by
  induction h with
  | nil => rfl
  | cons m past ih =>
    have hm := hlate m List.mem_cons_self
    have hpast := ih fun k hk => hlate k (List.mem_cons_of_mem m hk)
    unfold markedAt marked
    by_cases hwho : m.who = i
    · simp [hwho, hm hwho]
    · simpa [hwho] using hpast

/-- After the last mark the time goes on by whole stretches or not at all. -/
theorem markedTime_of_late (hlate : ∀ m ∈ h, m.who = i → m.time ≤ a) :
    markedTime h i a b = if marked h i then b - a else 0 :=
  markedTime_const fun _ hat _ =>
    markedAt_of_late fun m hm hwho => (hlate m hm hwho).trans hat

theorem marked_cons_self (hwho : m.who = i) : marked (m :: h) i = m.on := by
  simp [marked, hwho]

theorem marked_cons_of_ne (hwho : m.who ≠ i) : marked (m :: h) i = marked h i := by
  simp [marked, hwho]

theorem markedTime_mono (h : List (Mark ι)) (i : ι) (a : ℕ) (hbc : b ≤ c) :
    markedTime h i a b ≤ markedTime h i a c :=
  Finset.card_le_card (Finset.filter_subset_filter _ (Finset.Ico_subset_Ico_right hbc))

/-- A mark leaves the time before it alone. -/
theorem markedTime_cons_of_le (hb : b ≤ m.time) :
    markedTime (m :: h) i a b = markedTime h i a b := by
  refine markedTime_congr fun t _ htb => ?_
  have hlt : ¬ m.time ≤ t := by omega
  simp [markedAt, hlt]

end RocketNpu.Marks
