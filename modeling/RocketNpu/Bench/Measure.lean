import RocketNpu.Bench.Oracle

namespace RocketNpu.Bench
open Dict

structure Args where
  warmup : ℤ
  /-- `args.repeat` -/
  blocks : ℤ
  deepEvery : ℤ
  maxLoad : ℚ
  force : Bool
  /-- the path of `--compare` -/
  compare : Option String

/-- An entry of `corruption`. -/
structure Corruption where
  block : ℕ
  iter : ℕ
  tensor : ℕ
  name : String
  got : String
  want : String
deriving DecidableEq

/-- A loop of `n` rounds that collects what each round reports, and raises when a round does. -/
def collect {σ C : Type} (round : ℕ → σ → Option (List C × σ)) : ℕ → σ → Option (List C × σ)
  | 0, s => some ([], s)
  | n + 1, s => do
    let (c, s) ← collect round n s
    let (c', s) ← round n s
    return (c ++ c', s)

section
variable {σ C : Type} {round : ℕ → σ → Option (List C × σ)} {n : ℕ} {s s' : σ} {c : List C}

theorem collect_succ (h : collect round (n + 1) s = some (c, s')) :
    ∃ c₁ t c₂, collect round n s = some (c₁, t) ∧ round n t = some (c₂, s') ∧ c = c₁ ++ c₂ := by
  simp only [collect, Option.bind_eq_bind, Option.bind_eq_some_iff, Prod.exists] at h
  have ⟨c₁, t, h₁, c₂, t', h₂, he⟩ := h
  have hp := Prod.mk.inj (Option.some.inj he)
  exact ⟨c₁, t, c₂, h₁, hp.2 ▸ h₂, hp.1.symm⟩

/-- Where a whole loop reports nothing, no round of it did. -/
theorem collect_nil (h : collect round n s = some ([], s')) (k : ℕ) (hk : k < n) :
    ∃ t t', collect round k s = some ([], t) ∧ round k t = some ([], t') := by
  induction n generalizing s' with
  | zero => exact absurd hk (Nat.not_lt_zero k)
  | succ n ih =>
    have ⟨c₁, t, c₂, h₁, h₂, hc⟩ := collect_succ h
    have ⟨hc₁, hc₂⟩ := List.append_eq_nil_iff.mp hc.symm
    rw [hc₁] at h₁
    rcases Nat.lt_succ_iff_lt_or_eq.mp hk with hlt | heq
    · exact ih h₁ hlt
    · rw [hc₂] at h₂
      exact ⟨t, s', heq ▸ h₁, heq ▸ h₂⟩

/-- A loop whose rounds report nothing while `I` holds, and keep it, reports nothing. -/
theorem collect_steady {I : σ → Prop}
    (hround : ∀ k t, I t → ∃ t', round k t = some ([], t') ∧ I t') (hs : I s) (n : ℕ) :
    ∃ s', collect round n s = some ([], s') ∧ I s' := by
  induction n with
  | zero => exact ⟨s, rfl, hs⟩
  | succ n ih =>
    have ⟨t, ht, hI⟩ := ih
    have ⟨t', ht', hI'⟩ := hround n t hI
    exact ⟨t', by simp [collect, ht, ht'], hI'⟩

end

/-- What the run finds: the load, the picture to measure with, how many iterations the clock leaves
a block, and whether the report and the result file get written. -/
structure Env (T : Type) where
  load : ℚ
  image : T
  iterations : ℕ → ℕ
  reported : Bool

abbrev Hashes := AList fun _ : ℕ => String

variable {σ T : Type} (R : Runtime σ T) (env : Env T) (args : Args) (o : Tensors) (ref : Hashes)

def Runtime.invokes : ℕ → σ → Option σ
  | 0, s => some s
  | n + 1, s => do Runtime.invokes n (← R.invoke s)

/-- The reference hashes: one for each tensor of the oracle. -/
abbrev References (o : Tensors) := {ref : Hashes // ∀ i, i ∈ ref ↔ i ∈ o.ordered}

def Runtime.references (o : Tensors) (s : σ) : Option (References o) :=
  if h : ∀ i ∈ o.ordered, (R.getTensor s i).isSome then
    some ⟨build o.ordered fun i => (R.getTensor s i).map R.sha, fun i => by
      rw [mem_build, Option.isSome_map]
      exact ⟨And.left, fun hi => ⟨hi, h i hi⟩⟩⟩
  else none

def Tensors.fastIdx : List ℕ :=
  match o.ordered.filter fun i => (o.sizes.lookup i).any (· ≤ 4096) with
  | [] => o.ordered.getLast?.toList
  | xs => xs

def Runtime.check (b it : ℕ) (s : σ) (i : ℕ) : Option (List Corruption) := do
  let hv ← (R.getTensor s i).map R.sha
  let want ← ref.lookup i
  if hv = want then
    return []
  let name ← o.names.lookup i
  return [⟨b, it, i, name, hv, want⟩]

def Runtime.checks (b it : ℕ) (s : σ) : List ℕ → Option (List Corruption)
  | [] => some []
  | i :: is => do
    let c ← R.check o ref b it s i
    let cs ← Runtime.checks b it s is
    return c ++ cs

/-- The tensor `deep` in every `deep_every`-th iteration; `it % 0` raises. -/
def Runtime.deepCheck (deep b it : ℕ) (s : σ) : Option (List Corruption) :=
  if args.deepEvery = 0 then none
  else if (it : ℤ) % args.deepEvery = 0 then R.check o ref b it s deep
  else some []

def Runtime.iteration (deep b k : ℕ) (s : σ) : Option (List Corruption × σ) := do
  let s ← R.invoke s
  let fast ← R.checks o ref b (k + 1) s o.fastIdx
  let late ← R.deepCheck args o ref deep b (k + 1) s
  return (fast ++ late, s)

/-- A block without an iteration has no mean: it raises. -/
def Runtime.block (deep b : ℕ) (s : σ) : Option (List Corruption × σ) := do
  guard (env.iterations b ≠ 0)
  collect (R.iteration args o ref deep b) (env.iterations b) s

def Runtime.measure (deep : ℕ) (s : σ) : Option (List Corruption × σ) :=
  collect (R.block env args o ref deep) args.blocks.toNat s

theorem lookup_references {s : σ} {refs : References o} (h : R.references o s = some refs) {i : ℕ}
    (hi : i ∈ o.ordered) : refs.1.lookup i = (R.getTensor s i).map R.sha := by
  unfold Runtime.references at h
  split at h
  · rw [← Option.some.inj h, lookup_build, if_pos hi]
  · exact absurd h (by simp)

variable {R o ref} {b it i : ℕ} {s : σ}

/-- A check reports a tensor whose hash is another. -/
theorem check_changed {t : T} {want name : String} (ht : R.getTensor s i = some t)
    (hwant : ref.lookup i = some want) (hname : o.names.lookup i = some name)
    (hne : R.sha t ≠ want) :
    R.check o ref b it s i = some [⟨b, it, i, name, R.sha t, want⟩] := by
  simp [Runtime.check, ht, hwant, hname, hne]

/-- A check reports nothing of a tensor whose hash is the reference, and of no other. -/
theorem check_nil_iff (o : Tensors) (b it : ℕ) : R.check o ref b it s i = some [] ↔
    ∃ t, R.getTensor s i = some t ∧ ref.lookup i = some (R.sha t) := by
  constructor
  · intro h
    simp only [Runtime.check, Option.bind_eq_bind, Option.bind_eq_some_iff,
      Option.map_eq_some_iff] at h
    have ⟨hv, ⟨t, ht, hhv⟩, want, hwant, h⟩ := h
    split at h
    · rename_i he
      exact ⟨t, ht, by rw [hwant, hhv, he]⟩
    · simp [Option.bind_eq_some_iff] at h
  · intro ⟨t, ht, href⟩
    simp [Runtime.check, ht, href]

theorem checks_nil_iff {is : List ℕ} : R.checks o ref b it s is = some [] ↔
    ∀ i ∈ is, ∃ t, R.getTensor s i = some t ∧ ref.lookup i = some (R.sha t) := by
  induction is with
  | nil => simp [Runtime.checks]
  | cons j is ih =>
    rw [List.forall_mem_cons, ← ih, ← check_nil_iff o b it]
    constructor
    · intro h
      simp only [Runtime.checks, Option.bind_eq_bind, Option.bind_eq_some_iff] at h
      have ⟨c, hc, cs, hcs, he⟩ := h
      have ⟨hnil, hnils⟩ := List.append_eq_nil_iff.mp (Option.some.inj he)
      exact ⟨hnil ▸ hc, hnils ▸ hcs⟩
    · intro ⟨hc, hcs⟩
      simp [Runtime.checks, hc, hcs]

theorem mem_of_mem_fastIdx (h : i ∈ o.fastIdx) : i ∈ o.ordered := by
  unfold Tensors.fastIdx at h
  split at h
  · exact List.mem_of_getLast? (Option.mem_toList.mp h)
  · exact List.mem_of_mem_filter h

theorem fastIdx_singleton (h : o.ordered = [i]) : o.fastIdx = [i] := by
  unfold Tensors.fastIdx
  rw [h]
  cases hsmall : (o.sizes.lookup i).any (· ≤ 4096) <;> simp [hsmall]

variable {env args} {deep : ℕ} {s' : σ}

theorem deepCheck_nil (h : R.deepCheck args o ref deep b it s = some [])
    (hd : args.deepEvery ∣ it) :
    ∃ t, R.getTensor s deep = some t ∧ ref.lookup deep = some (R.sha t) := by
  unfold Runtime.deepCheck at h
  split at h
  · exact absurd h (by simp)
  · rw [if_pos (Int.emod_eq_zero_of_dvd hd)] at h
    exact (check_nil_iff _ _ _).mp h

theorem iteration_nil {k : ℕ} (h : R.iteration args o ref deep b k s = some ([], s')) :
    R.invoke s = some s' ∧
    (∀ i ∈ o.fastIdx, ∃ t, R.getTensor s' i = some t ∧ ref.lookup i = some (R.sha t)) ∧
    (args.deepEvery ∣ (k + 1 : ℕ) →
      ∃ t, R.getTensor s' deep = some t ∧ ref.lookup deep = some (R.sha t)) := by
  simp only [Runtime.iteration, Option.bind_eq_bind, Option.bind_eq_some_iff] at h
  have ⟨t, hinvoke, fast, hfast, late, hlate, he⟩ := h
  have ⟨hnil, ht⟩ := Prod.mk.inj (Option.some.inj he)
  have ⟨hf, hl⟩ := List.append_eq_nil_iff.mp hnil
  rw [hf, ht] at hfast
  rw [hl, ht] at hlate
  rw [ht] at hinvoke
  exact ⟨hinvoke, checks_nil_iff.mp hfast, deepCheck_nil hlate⟩

/-- What a measurement without a mismatch has seen. -/
theorem measure_nil (h : R.measure env args o ref deep s = some ([], s'))
    (hb : b < args.blocks.toNat) {k : ℕ} (hk : k < env.iterations b) :
    ∃ t₀ t₁ t, collect (R.block env args o ref deep) b s = some ([], t₀) ∧
      collect (R.iteration args o ref deep b) k t₀ = some ([], t₁) ∧
      R.invoke t₁ = some t ∧
      (∀ i ∈ o.fastIdx, ∃ x, R.getTensor t i = some x ∧ ref.lookup i = some (R.sha x)) ∧
      (args.deepEvery ∣ (k + 1 : ℕ) →
        ∃ x, R.getTensor t deep = some x ∧ ref.lookup deep = some (R.sha x)) := by
  have ⟨t₀, t₀', h₀, hblock⟩ := collect_nil h b hb
  simp only [Runtime.block, Option.bind_eq_bind, Option.bind_eq_some_iff] at hblock
  have ⟨_, _, hiter⟩ := hblock
  have ⟨t₁, t, h₁, ht⟩ := collect_nil hiter k hk
  exact ⟨t₀, t₁, t, h₀, h₁, iteration_nil ht⟩

/-- While the tensors of the oracle keep their hashes, a measurement finds no mismatch. -/
theorem measure_steady {I : σ → Prop} (hs : I s)
    (hinvoke : ∀ t, I t → ∃ t', R.invoke t = some t' ∧ I t')
    (hsha : ∀ t, I t → ∀ i ∈ o.ordered,
      ∃ x, R.getTensor t i = some x ∧ ref.lookup i = some (R.sha x))
    (hdeep : deep ∈ o.ordered) (hd : args.deepEvery ≠ 0) (hn : ∀ b, env.iterations b ≠ 0) :
    ∃ s', R.measure env args o ref deep s = some ([], s') := by
  have hiter : ∀ b k t, I t → ∃ t', R.iteration args o ref deep b k t = some ([], t') ∧ I t' := by
    intro b k t ht
    have ⟨t', ht', hI⟩ := hinvoke t ht
    have hfast : R.checks o ref b (k + 1) t' o.fastIdx = some [] :=
      checks_nil_iff.mpr fun i hi => hsha t' hI i (mem_of_mem_fastIdx hi)
    have hlate : R.deepCheck args o ref deep b (k + 1) t' = some [] := by
      rw [Runtime.deepCheck, if_neg hd, (check_nil_iff o b _).mpr (hsha t' hI deep hdeep), ite_self]
    exact ⟨t', by simp [Runtime.iteration, ht', hfast, hlate], hI⟩
  have hblock : ∀ b t, I t → ∃ t', R.block env args o ref deep b t = some ([], t') ∧ I t' := by
    intro b t ht
    have ⟨t', ht', hI⟩ := collect_steady (hiter b) ht (env.iterations b)
    exact ⟨t', by simp [Runtime.block, hn b, ht'], hI⟩
  have ⟨s', hs', _⟩ := collect_steady hblock hs args.blocks.toNat
  exact ⟨s', hs'⟩

end RocketNpu.Bench
