import Mathlib.Data.Nat.Count
import Mathlib.Data.Finset.Card

namespace RocketNpu.Counting

variable {p q : ℕ → Prop} [DecidablePred p] [DecidablePred q] {i n : ℕ}

/-- A predicate that becomes true at one more index counts one more. -/
theorem count_flip (hi : i < n) (hp : ¬ p i) (hq : q i) (h : ∀ j, j ≠ i → (q j ↔ p j)) :
    Nat.count q n = Nat.count p n + 1 := by
  rw [Nat.count_eq_card_filter_range, Nat.count_eq_card_filter_range]
  have hins : (Finset.range n).filter q = insert i ((Finset.range n).filter p) := by
    ext j
    by_cases hj : j = i
    · subst hj
      simp [hi, hq]
    · simp [hj, h j hj]
  rw [hins, Finset.card_insert_of_notMem (by simp [hp])]

end RocketNpu.Counting
