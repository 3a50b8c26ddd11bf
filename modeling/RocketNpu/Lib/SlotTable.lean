import Mathlib.Logic.Function.Basic
import RocketNpu.Lib.Counting

namespace RocketNpu.SlotTable

variable {α : Type*} {n i j : ℕ} {f : ℕ → Option α} {a : α}

/-- The first of `n` slots that is free. -/
def firstFree (n : ℕ) (f : ℕ → Option α) : Option ℕ :=
  (List.range n).find? fun i => (f i).isNone

def findSlot [DecidableEq α] (n : ℕ) (f : ℕ → Option α) (a : α) : Option ℕ :=
  (List.range n).find? fun i => f i == some a

/-- How many of `n` slots are taken. -/
def occupied (n : ℕ) (f : ℕ → Option α) : ℕ := Nat.count (fun i => (f i).isSome = true) n

/-- Nothing sits in two slots. -/
def Distinct (n : ℕ) (f : ℕ → Option α) : Prop :=
  ∀ i < n, ∀ j < n, ∀ a, f i = some a → f j = some a → i = j

theorem firstFree_some (h : firstFree n f = some i) : i < n ∧ f i = none := by
  have hp := List.find?_some h
  have hm := List.mem_of_find?_eq_some h
  exact ⟨List.mem_range.mp hm, by simpa using hp⟩

theorem firstFree_none (h : firstFree n f = none) : occupied n f = n := by
  apply Nat.count_of_forall
  intro i hi
  have hno := List.find?_eq_none.mp h i (List.mem_range.mpr hi)
  exact Option.isSome_iff_ne_none.mpr (by simpa using hno)

theorem occupied_le (n : ℕ) (f : ℕ → Option α) : occupied n f ≤ n := Nat.count_le _

theorem occupied_eq_length (n : ℕ) (f : ℕ → Option α) :
    occupied n f = ((List.range n).filter fun i => (f i).isSome).length := by
  rw [occupied, Nat.count, List.countP_eq_length_filter]
  simp

theorem occupied_pos_iff : 0 < occupied n f ↔ ∃ i < n, ∃ a, f i = some a := by
  rw [occupied, Nat.pos_iff_ne_zero, Ne, Nat.count_iff_forall_not]
  simp only [not_forall, not_not, Option.isSome_iff_exists, exists_prop]

theorem occupied_claim (hi : i < n) (hfree : f i = none) (a : α) :
    occupied n (Function.update f i (some a)) = occupied n f + 1 := by
  apply Counting.count_flip hi (by simp [hfree]) (by simp)
  intro j hj
  rw [Function.update_of_ne hj]

theorem occupied_release (hi : i < n) (ha : f i = some a) :
    occupied n f = occupied n (Function.update f i none) + 1 := by
  apply Counting.count_flip hi (by simp) (by simp [ha])
  intro j hj
  rw [Function.update_of_ne hj]

/-- What a slot holds after `a` went into slot `i`. -/
theorem claimed {b : α} (h : Function.update f i (some a) j = some b) :
    j = i ∧ b = a ∨ j ≠ i ∧ f j = some b := by
  by_cases hji : j = i
  · rw [hji, Function.update_self] at h
    exact .inl ⟨hji, (Option.some.inj h).symm⟩
  · rw [Function.update_of_ne hji] at h
    exact .inr ⟨hji, h⟩

/-- What a slot holds after slot `i` was given back. -/
theorem released {b : α} (h : Function.update f i none j = some b) : j ≠ i ∧ f j = some b := by
  have hji : j ≠ i := by
    intro he
    simp [he] at h
  exact ⟨hji, by rwa [Function.update_of_ne hji] at h⟩

/-- A change of slot `i` leaves alone what `i` did not hold. -/
theorem stays {b : α} (h : f j = some b) (hi : f i ≠ some b) (o : Option α) :
    Function.update f i o j = some b := by
  have hji : j ≠ i := by
    intro he
    exact hi (he ▸ h)
  rwa [Function.update_of_ne hji]

theorem Distinct.claim (h : Distinct n f) (ha : ∀ j < n, f j ≠ some a) (i : ℕ) :
    Distinct n (Function.update f i (some a)) := by
  intro j hj k hk b hb hb'
  rcases claimed hb with ⟨hji, hba⟩ | ⟨_, hb⟩
  · rcases claimed hb' with ⟨hki, _⟩ | ⟨_, hb'⟩
    · rw [hji, hki]
    · exact absurd (hba ▸ hb') (ha k hk)
  · rcases claimed hb' with ⟨_, hba⟩ | ⟨_, hb'⟩
    · exact absurd (hba ▸ hb) (ha j hj)
    · exact h j hj k hk b hb hb'

theorem Distinct.release (h : Distinct n f) (i : ℕ) : Distinct n (Function.update f i none) := by
  intro j hj k hk b hb hb'
  exact h j hj k hk b (released hb).2 (released hb').2

theorem Distinct.findSlot [DecidableEq α] (h : Distinct n f) (hi : i < n) (ha : f i = some a) :
    findSlot n f a = some i := by
  unfold SlotTable.findSlot
  cases hf : (List.range n).find? fun i => f i == some a with
  | none =>
    have hno := List.find?_eq_none.mp hf i (List.mem_range.mpr hi)
    simp [ha] at hno
  | some j =>
    have hj := List.mem_range.mp (List.mem_of_find?_eq_some hf)
    have hja : f j = some a := by simpa using List.find?_some hf
    rw [h j hj i hi a hja ha]

end RocketNpu.SlotTable
