import Mathlib.Data.Finset.Sort
import Mathlib.Data.String.Basic
import RocketNpu.Bench.Measure

namespace RocketNpu.Bench
open Dict

/-- The `oracle` of a result. Its dictionaries have the indices as keys in memory, where `str` is
`id`, and their digits in the file, as JSON writes them. -/
structure OracleEntry {K : Type} [DecidableEq K] (str : ℕ → K) where
  tensors : List ℕ
  sizes : AList fun _ : K => ℕ
  names : AList fun _ : K => String
  reference : AList fun _ : K => String
  mem_reference : ∀ k, k ∈ reference ↔ ∃ i ∈ tensors, str i = k

abbrev digits : ℕ → String := toString

theorem digits_injective : Function.Injective digits := by
  intro i j h
  have hi : Nat.ofDigitChars 10 i.repr.toList 0 = Nat.ofDigitChars 10 j.repr.toList 0 :=
    congrArg (fun l : String => Nat.ofDigitChars 10 l.toList 0) h
  simpa only [Nat.toList_repr, Nat.ofDigitChars_ten_toDigits] using hi

def Tensors.entry (o : Tensors) (refs : References o) : OracleEntry id where
  tensors := o.ordered
  sizes := o.sizes
  names := o.names
  reference := refs.1
  mem_reference k := (refs.2 k).trans ⟨fun hk => ⟨k, hk, rfl⟩, fun ⟨_, hi, he⟩ => he ▸ hi⟩

/-- What `json.dump` writes. -/
def OracleEntry.dump (e : OracleEntry id) : OracleEntry digits where
  tensors := e.tensors
  sizes := mapKeys digits e.sizes
  names := mapKeys digits e.names
  reference := mapKeys digits e.reference
  mem_reference k := by
    constructor
    · intro hk
      have ⟨j, hj, he⟩ := exists_of_mem_mapKeys hk
      have ⟨i, hi, hij⟩ := (e.mem_reference j).mp hj
      exact ⟨i, hi, (congrArg digits hij).trans he⟩
    · intro ⟨i, hi, he⟩
      rw [← he, mem_mapKeys digits_injective]
      exact (e.mem_reference i).mpr ⟨i, hi, rfl⟩

def OracleEntry.oh (old : OracleEntry digits) : AList fun _ : String => String :=
  mapKeys (fun k => k) old.reference

def OracleEntry.nh (new : OracleEntry id) : AList fun _ : String => String :=
  mapKeys digits new.reference

def common (oh nh : AList fun _ : String => String) : Finset String :=
  oh.keys.toFinset ∩ nh.keys.toFinset

def diff (oh nh : AList fun _ : String => String) : Finset String :=
  (common oh nh).filter fun k => oh.lookup k ≠ nh.lookup k

def verdict (oh nh : AList fun _ : String => String) : Line :=
  if common oh nh = ∅ then .noCommon
  else if diff oh nh ≠ ∅ then .notSame (diff oh nh).sort
  else .bitExact (common oh nh).card

/-- Every tensor of the baseline is there, with the hash it has in the baseline. -/
def OracleEntry.CoveredBy (old : OracleEntry digits) (new : OracleEntry id) : Prop :=
  ∀ i ∈ old.tensors, i ∈ new.tensors ∧ new.reference.lookup i = old.reference.lookup (digits i)

theorem mem_common {oh nh : AList fun _ : String => String} {k : String} :
    k ∈ common oh nh ↔ k ∈ oh ∧ k ∈ nh := by
  rw [common, Finset.mem_inter, List.mem_toFinset, List.mem_toFinset]
  rfl

theorem verdict_bitExact_iff {oh nh : AList fun _ : String => String} :
    (∃ n, verdict oh nh = .bitExact n) ↔ Overlap oh nh ∧ Agree oh nh := by
  have hov : Overlap oh nh ↔ common oh nh ≠ ∅ := by
    rw [← Finset.nonempty_iff_ne_empty]
    exact exists_congr fun k => mem_common.symm
  have hag : Agree oh nh ↔ diff oh nh = ∅ := by
    rw [diff, Finset.filter_eq_empty_iff]
    constructor
    · intro h k hk
      have ⟨ho, hn⟩ := mem_common.mp hk
      exact not_not.mpr (h k ho hn).symm
    · intro h k ho hn
      exact (not_not.mp (h (mem_common.mpr ⟨ho, hn⟩))).symm
  rw [hov, hag, verdict]
  split
  · rename_i he
    simp [he]
  · split
    · rename_i hd
      simp [hd]
    · rename_i hc hd
      simp [hc, not_not.mp hd]

section
variable {old : OracleEntry digits} {new : OracleEntry id} {i : ℕ}

theorem lookup_oh (k : String) : old.oh.lookup k = old.reference.lookup k :=
  lookup_mapKeys Function.injective_id _ k

theorem lookup_nh : new.nh.lookup (digits i) = new.reference.lookup i :=
  lookup_mapKeys digits_injective _ i

theorem mem_nh : digits i ∈ new.nh ↔ i ∈ new.tensors := by
  rw [OracleEntry.nh, mem_mapKeys digits_injective, new.mem_reference]
  exact ⟨fun ⟨j, hj, he⟩ => he ▸ hj, fun hi => ⟨i, hi, rfl⟩⟩

theorem forall_oh {P : String → Prop} : (∀ k ∈ old.oh, P k) ↔ ∀ i ∈ old.tensors, P (digits i) := by
  have hmem : ∀ k, k ∈ old.oh ↔ ∃ i ∈ old.tensors, digits i = k := by
    intro k
    rw [← old.mem_reference]
    exact mem_mapKeys Function.injective_id
  constructor
  · intro h i hi
    exact h _ ((hmem _).mpr ⟨i, hi, rfl⟩)
  · intro h k hk
    have ⟨i, hi, he⟩ := (hmem k).mp hk
    exact he ▸ h i hi

theorem coveredBy_iff : old.CoveredBy new ↔ Extends old.oh new.nh := by
  rw [Extends, forall_oh]
  simp only [lookup_oh, lookup_nh, mem_nh]
  rfl

theorem lookup_dump : new.dump.reference.lookup (digits i) = new.reference.lookup i :=
  lookup_mapKeys digits_injective _ i

/-- The comparison sees the whole baseline unless the new run has some tensors of it, but not all,
and with the hashes of the baseline. -/
theorem verdict_covers_iff :
    ((∃ n, verdict old.oh new.nh = .bitExact n) → old.CoveredBy new) ↔
      (∀ i ∈ old.tensors, i ∈ new.tensors) ∨ (∀ i ∈ old.tensors, i ∉ new.tensors) ∨
        ∃ i ∈ old.tensors, i ∈ new.tensors ∧
          new.reference.lookup i ≠ old.reference.lookup (digits i) := by
  have hdiff : (∃ k ∈ old.oh, k ∈ new.nh ∧ new.nh.lookup k ≠ old.oh.lookup k) ↔
      ∃ i ∈ old.tensors, i ∈ new.tensors ∧
        new.reference.lookup i ≠ old.reference.lookup (digits i) := by
    rw [← not_iff_not]
    push Not
    rw [forall_oh]
    simp only [lookup_oh, lookup_nh, mem_nh]
  rw [verdict_bitExact_iff, coveredBy_iff, agree_extends_iff, hdiff, forall_oh, forall_oh]
  simp only [mem_nh]

end

end RocketNpu.Bench
