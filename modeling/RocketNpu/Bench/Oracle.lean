import Mathlib.Data.Finset.Dedup
import Mathlib.Data.Finset.Lattice.Fold
import Mathlib.Order.Lattice.Nat
import Mathlib.Algebra.Order.Ring.Unbundled.Rat
import RocketNpu.Lib.Dict

namespace RocketNpu.Bench
open Dict

/-- What the benchmark calls: the interpreter with its delegate in a state `σ`, and the arrays `T`
it hands out. `none` is a call that raises. -/
structure Runtime (σ T : Type) where
  /-- `get_tensor_details()`: the index and the name of each tensor -/
  details : List (ℕ × String)
  /-- `get_input_details()[0]["index"]` -/
  input : ℕ
  setTensor : σ → ℕ → T → Option σ
  invoke : σ → Option σ
  getTensor : σ → ℕ → Option T
  size : T → ℕ
  nbytes : T → ℕ
  arrayEqual : T → T → Bool
  sha : T → String
  /-- the picture `default_rng(seed)` gives -/
  integers : ℕ → T

/-- The order in which a set is gone through. -/
structure SetOrder where
  list : Finset ℕ → List ℕ
  nodup : ∀ s, (list s).Nodup
  mem : ∀ s i, i ∈ list s ↔ i ∈ s

def SetOrder.ascending : SetOrder where
  list s := (List.range (s.sup id + 1)).filter fun i => i ∈ s
  nodup s := List.nodup_range.filter _
  mem s i := by
    rw [List.mem_filter, List.mem_range, decide_eq_true_eq]
    exact and_iff_right_of_imp fun hi => Nat.lt_succ_of_le (Finset.le_sup (f := id) hi)

/-- A dictionary of copies of tensors. -/
abbrev Snap (T : Type) := AList fun _ : ℕ => T

/-- What the five runs of `derive_oracle` left. -/
structure Probes (T : Type) where
  a1 : Snap T
  a2 : Snap T
  /-- `reps[0]` -/
  rep : Snap T
  /-- `reps[1:]` -/
  again : List (Snap T)

/-- What `derive_oracle` returns. -/
structure Tensors where
  ordered : List ℕ
  sizes : AList fun _ : ℕ => ℕ
  names : AList fun _ : ℕ => String
  nodup : ordered.Nodup

inductive Line
  /-- `ODBIJAM`: the machine is too busy -/
  | refused (load maxLoad : ℚ)
  /-- `orakl`: how many tensors were computed, and how many of them are deterministic -/
  | orakl (computed stable : ℕ)
  /-- `ODBACEN`: not deterministic -/
  | dropped (i : ℕ) (size : ℕ) (name : List Char)
  | kept (i : ℕ) (size : ℕ) (name : List Char)
  /-- `Nijedan tenzor nije prosao orakl` -/
  | noTensor
  /-- `referentni hesevi uzeti posle ... warmup invoke-ova` -/
  | reference (warmup : ℤ)
  /-- `PROSAO — bit-exact` -/
  | passed
  /-- `PAO! ... neslaganja` -/
  | failed (mismatches : ℕ)
  | mismatch (block iter i : ℕ) (name got want : List Char)
  /-- `?? nema zajednickih orakl tenzora izmedju runova` -/
  | noCommon
  /-- `RACUN NIJE ISTI` -/
  | notSame (tensors : List String)
  /-- `bit-exact isti rezultat kao baseline ✓ (... tenzora)` -/
  | bitExact (tensors : ℕ)
deriving DecidableEq

variable {σ T : Type} (R : Runtime σ T) (ord : SetOrder)

def Runtime.snap (s : σ) : Snap T :=
  build (R.details.map Prod.fst) fun i => (R.getTensor s i).filter fun t => 1 < R.size t

def Runtime.run (seed : ℕ) (s : σ) : Option (Snap T × σ) := do
  let s ← R.setTensor s R.input (R.integers seed)
  let s ← R.invoke s
  return (R.snap s, s)

def Runtime.probes (s : σ) : Option (Probes T × σ) := do
  let (a1, s) ← R.run 7 s
  let (a2, s) ← R.run 99 s
  let (r0, s) ← R.run 7 s
  let (r1, s) ← R.run 7 s
  let (r2, s) ← R.run 7 s
  return (⟨a1, a2, r0, [r1, r2]⟩, s)

def Runtime.differ : Option T → Option T → Bool
  | some x, some y => !R.arrayEqual x y
  | _, _ => false

def Runtime.same : Option T → Option T → Bool
  | some x, some y => R.arrayEqual x y
  | _, _ => false

def Runtime.computed (p : Probes T) : Finset ℕ :=
  (p.a1.keys.toFinset.filter fun i => R.differ (p.a1.lookup i) (p.a2.lookup i)).erase R.input

def Runtime.stable (p : Probes T) : Finset ℕ :=
  (R.computed p).filter fun i =>
    ((p.rep :: p.again).all fun r => (r.lookup i).isSome) &&
      p.again.all fun r => R.same (p.rep.lookup i) (r.lookup i)

/-- The names, `(bez imena)` for a tensor without one. -/
def Runtime.names : AList fun _ : ℕ => String :=
  R.details.foldl (fun m d => m.insert d.1 (if d.2 = "" then "(bez imena)" else d.2)) ∅

def Runtime.sizes (p : Probes T) : AList fun _ : ℕ => ℕ :=
  build (ord.list (R.computed p)) fun i => (p.a1.lookup i).map R.nbytes

/-- `sorted(..., key=lambda x: -sizes[x])` -/
def bySize (sizes : AList fun _ : ℕ => ℕ) (xs : List ℕ) : List ℕ :=
  xs.mergeSort fun x y => (sizes.lookup y).getD 0 ≤ (sizes.lookup x).getD 0

theorem mem_bySize (sizes : AList fun _ : ℕ => ℕ) {xs : List ℕ} {i : ℕ} :
    i ∈ bySize sizes xs ↔ i ∈ xs := List.mem_mergeSort

def Runtime.derived (p : Probes T) : Tensors where
  ordered := bySize (R.sizes ord p) (ord.list (R.stable p))
  sizes := build (ord.list (R.stable p)) (R.sizes ord p).lookup
  names := build (ord.list (R.stable p)) R.names.lookup
  nodup := (List.mergeSort_perm _ _).nodup_iff.mpr (ord.nodup _)

/-- What is printed of the tensors `xs`: each with its size and the first 40 letters of its name. -/
def Runtime.listed (p : Probes T) (line : ℕ → ℕ → List Char → Line) (xs : Finset ℕ) : List Line :=
  (bySize (R.sizes ord p) (ord.list xs)).map fun i =>
    line i (((R.sizes ord p).lookup i).getD 0) (((R.names.lookup i).getD "").toList.take 40)

def Runtime.oracleLines (p : Probes T) : List Line :=
  .orakl (R.computed p).card (R.stable p).card ::
    (R.listed ord p .dropped (R.computed p \ R.stable p) ++ R.listed ord p .kept (R.stable p))

def Runtime.deriveOracle (s : σ) : Option (List Line × Tensors × σ) := do
  let (p, s) ← R.probes s
  return (R.oracleLines ord p, R.derived ord p, s)

/-- A tensor that passes the probes: computed from the picture, and the same in each repetition. -/
def Runtime.Kept (p : Probes T) (i : ℕ) : Prop :=
  i ≠ R.input ∧
  (∃ x y, p.a1.lookup i = some x ∧ p.a2.lookup i = some y ∧ R.arrayEqual x y = false) ∧
  ∃ x, p.rep.lookup i = some x ∧ ∀ r ∈ p.again, ∃ y, r.lookup i = some y ∧ R.arrayEqual x y = true

theorem differ_iff {a b : Option T} :
    R.differ a b = true ↔ ∃ x y, a = some x ∧ b = some y ∧ R.arrayEqual x y = false := by
  cases a <;> cases b <;> simp [Runtime.differ]

theorem same_iff {a b : Option T} :
    R.same a b = true ↔ ∃ x y, a = some x ∧ b = some y ∧ R.arrayEqual x y = true := by
  cases a <;> cases b <;> simp [Runtime.same]

theorem mem_computed {p : Probes T} {i : ℕ} : i ∈ R.computed p ↔ i ≠ R.input ∧
    ∃ x y, p.a1.lookup i = some x ∧ p.a2.lookup i = some y ∧ R.arrayEqual x y = false := by
  rw [Runtime.computed, Finset.mem_erase, Finset.mem_filter, differ_iff]
  constructor
  · intro h
    exact ⟨h.1, h.2.2⟩
  · intro ⟨hi, x, y, hx, hxy⟩
    have ha : i ∈ p.a1 := AList.lookup_isSome.mp (hx ▸ rfl)
    exact ⟨hi, List.mem_toFinset.mpr (AList.mem_keys.mp ha), x, y, hx, hxy⟩

theorem mem_stable {p : Probes T} {i : ℕ} : i ∈ R.stable p ↔ R.Kept p i := by
  rw [Runtime.stable, Finset.mem_filter, mem_computed, Bool.and_eq_true, List.all_eq_true,
    List.all_eq_true, Runtime.Kept, and_assoc]
  simp only [same_iff]
  refine and_congr_right fun _ => and_congr_right fun _ => ?_
  constructor
  · intro ⟨hall, hsame⟩
    have ⟨x, hx⟩ := Option.isSome_iff_exists.mp (hall p.rep (by simp))
    refine ⟨x, hx, ?_⟩
    intro r hr
    have ⟨x', y, hx', hy, hxy⟩ := hsame r hr
    have he : x = x' := Option.some.inj (hx.symm.trans hx')
    exact ⟨y, hy, he ▸ hxy⟩
  · intro ⟨x, hx, hagain⟩
    constructor
    · intro r hr
      rcases List.mem_cons.mp hr with he | hr
      · rw [he, hx]
        rfl
      · have ⟨y, hy, _⟩ := hagain r hr
        rw [hy]
        rfl
    · intro r hr
      have ⟨y, hy, hxy⟩ := hagain r hr
      exact ⟨x, y, hx, hy, hxy⟩

theorem mem_ordered {p : Probes T} {i : ℕ} : i ∈ (R.derived ord p).ordered ↔ R.Kept p i := by
  rw [← mem_stable, ← ord.mem]
  exact mem_bySize _

/-- Nothing is said of a tensor that the two pictures leave as it was. -/
theorem dropped_iff {p : Probes T} {i : ℕ} :
    (∃ size name, Line.dropped i size name ∈ R.oracleLines ord p) ↔
      i ∈ R.computed p ∧ ¬ R.Kept p i := by
  rw [← mem_stable, ← Finset.mem_sdiff, ← ord.mem, ← mem_bySize (R.sizes ord p)]
  simp [Runtime.oracleLines, Runtime.listed]

end RocketNpu.Bench
