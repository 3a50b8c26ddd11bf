import Mathlib.Data.List.AList

namespace RocketNpu.Dict

variable {K L V : Type*} [DecidableEq L] {d e : AList fun _ : K => V} {k : K}

/-- The same entries under other keys, from the oldest on. -/
def mapKeys (s : K → L) (d : AList fun _ : K => V) : AList fun _ : L => V :=
  d.entries.foldr (fun p m => m.insert (s p.1) p.2) ∅

theorem exists_of_mem_mapKeys {s : K → L} {l : L} (h : l ∈ mapKeys s d) : ∃ k ∈ d, s k = l := by
  have hmem : ∀ es : List (Sigma fun _ : K => V),
      l ∈ es.foldr (fun p (m : AList fun _ : L => V) => m.insert (s p.1) p.2) ∅ →
        ∃ k ∈ es.keys, s k = l := by
    intro es
    induction es with
    | nil =>
      intro hl
      exact absurd hl (AList.notMem_empty l)
    | cons p es ih =>
      intro hl
      rw [List.foldr_cons, AList.mem_insert] at hl
      rcases hl with he | hl
      · exact ⟨p.1, by simp, he.symm⟩
      · have ⟨k, hk, he⟩ := ih hl
        exact ⟨k, by simp [hk], he⟩
  exact hmem d.entries h

variable [DecidableEq K]

/-- What a loop over `xs` makes that enters `k` with `f k`, where there is one. -/
def build (xs : List K) (f : K → Option V) : AList fun _ : K => V :=
  xs.foldl (fun m k => (f k).elim m (m.insert k)) ∅

/-- A key of both. -/
def Overlap (d e : AList fun _ : K => V) : Prop := ∃ k ∈ d, k ∈ e

def Agree (d e : AList fun _ : K => V) : Prop := ∀ k ∈ d, k ∈ e → e.lookup k = d.lookup k

/-- Every entry of `d` is one of `e`. -/
def Extends (d e : AList fun _ : K => V) : Prop := ∀ k ∈ d, k ∈ e ∧ e.lookup k = d.lookup k

theorem lookup_foldl (xs : List K) (f : K → Option V) (k : K) (d : AList fun _ : K => V) :
    (xs.foldl (fun m k => (f k).elim m (m.insert k)) d).lookup k =
      if k ∈ xs then (f k).or (d.lookup k) else d.lookup k := by
  induction xs generalizing d with
  | nil => simp
  | cons x xs ih =>
    rw [List.foldl_cons, ih]
    by_cases hkx : k = x
    · subst hkx
      cases hf : f k <;> simp
    · have hd : ((f x).elim d (d.insert x)).lookup k = d.lookup k := by
        cases f x
        · rfl
        · exact AList.lookup_insert_ne hkx
      rw [hd]
      simp [hkx]

theorem lookup_build (xs : List K) (f : K → Option V) (k : K) :
    (build xs f).lookup k = if k ∈ xs then f k else none := by
  rw [build, lookup_foldl, AList.lookup_empty, Option.or_none]

theorem mem_build {xs : List K} {f : K → Option V} :
    k ∈ build xs f ↔ k ∈ xs ∧ (f k).isSome := by
  rw [← AList.lookup_isSome, lookup_build]
  split <;> simp_all

theorem lookup_mapKeys {s : K → L} (hs : Function.Injective s) (d : AList fun _ : K => V) (k : K) :
    (mapKeys s d).lookup (s k) = d.lookup k := by
  change (d.entries.foldr (fun p (m : AList fun _ : L => V) =>
    m.insert (s p.1) p.2) ∅).lookup (s k) = d.entries.dlookup k
  induction d.entries with
  | nil => rfl
  | cons p es ih =>
    rw [List.foldr_cons]
    by_cases hk : k = p.1
    · rw [hk, List.dlookup_cons_eq]
      exact AList.lookup_insert _
    · rw [List.dlookup_cons_ne _ _ hk, ← ih]
      exact AList.lookup_insert_ne (hs.ne hk)

theorem mem_mapKeys {s : K → L} (hs : Function.Injective s) : s k ∈ mapKeys s d ↔ k ∈ d := by
  rw [← AList.lookup_isSome, lookup_mapKeys hs, AList.lookup_isSome]

theorem extends_iff : Extends d e ↔ (∀ k ∈ d, k ∈ e) ∧ Agree d e := by
  constructor
  · intro h
    exact ⟨fun k hk => (h k hk).1, fun k hk _ => (h k hk).2⟩
  · intro ⟨hin, hag⟩ k hk
    exact ⟨hin k hk, hag k hk (hin k hk)⟩

/-- A comparison of the keys of both sees all of `d` unless some keys of `d`, but not all, are
missing from `e` and it finds no difference on the others. -/
theorem agree_extends_iff : (Overlap d e ∧ Agree d e → Extends d e) ↔
    (∀ k ∈ d, k ∈ e) ∨ (∀ k ∈ d, k ∉ e) ∨ ∃ k ∈ d, k ∈ e ∧ e.lookup k ≠ d.lookup k := by
  constructor
  · intro h
    by_cases hag : Agree d e
    · by_cases hov : Overlap d e
      · exact .inl (extends_iff.mp (h ⟨hov, hag⟩)).1
      · refine .inr (.inl ?_)
        intro k hk hke
        exact hov ⟨k, hk, hke⟩
    · refine .inr (.inr ?_)
      simpa only [Agree, not_forall, exists_prop] using hag
  · intro h ⟨⟨k, hk, hke⟩, hag⟩
    rcases h with hin | hout | ⟨j, hj, hje, hne⟩
    · exact extends_iff.mpr ⟨hin, hag⟩
    · exact absurd hke (hout k hk)
    · exact absurd (hag j hj hje) hne

end RocketNpu.Dict
