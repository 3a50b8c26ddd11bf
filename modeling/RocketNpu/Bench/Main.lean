import RocketNpu.Bench.Compare

namespace RocketNpu.Bench
open Dict

/-- What is saved of a run for later comparisons. -/
structure Payload where
  oracle : OracleEntry id
  oraclePass : Bool
  corruption : List Corruption

/-- What a run of the program prints, saves and returns. -/
structure Run where
  lines : List Line
  saved : Option Payload
  exit : ℕ

/-- `if args.compare`: an empty path is none. -/
def Args.baseline (args : Args) : Option String := args.compare.filter fun path => path ≠ ""

def report (corruption : List Corruption) : List Line :=
  if corruption = [] then [.passed]
  else .failed corruption.length :: (corruption.take 5).map fun c =>
    .mismatch c.block c.iter c.tensor (c.name.toList.take 30) (c.got.toList.take 16)
      (c.want.toList.take 16)

variable {σ T : Type} (R : Runtime σ T) (ord : SetOrder) (env : Env T)
  (file : String → Option (OracleEntry digits)) (args : Args)

def result (lines : List Line) (oracle : OracleEntry id) (corruption : List Corruption)
    (tail : List Line) : Run where
  lines := lines ++ .reference args.warmup :: (report corruption ++ tail)
  saved := some ⟨oracle, corruption.isEmpty, corruption.take 50⟩
  exit := if corruption = [] then 0 else 1

/-- From the picture to the measured mismatches; the analysis divides by the time of all blocks. -/
def Runtime.benchmark (o : Tensors) (deep : ℕ) (s : σ) :
    Option (OracleEntry id × List Corruption) := do
  let s ← R.setTensor s R.input env.image
  let s ← R.invokes args.warmup.toNat s
  let refs ← R.references o s
  let (corruption, _) ← R.measure env args o refs.1 deep s
  guard (0 < args.blocks ∧ env.reported = true)
  return (o.entry refs, corruption)

def compared (new : OracleEntry id) : Option (List Line) :=
  match args.baseline with
  | none => some []
  | some path => (file path).map fun old => [verdict old.oh new.nh]

/-- The program from the derived oracle on. -/
def Runtime.judge (lines : List Line) (o : Tensors) (s : σ) : Option Run :=
  match o.ordered with
  | [] => some ⟨lines ++ [.noTensor], none, 3⟩
  | deep :: _ => do
    let (oracle, corruption) ← R.benchmark env args o deep s
    let tail ← compared file args oracle
    return result args lines oracle corruption tail

def Runtime.main (s : σ) : Option Run :=
  if args.maxLoad < env.load ∧ args.force = false then
    some ⟨[.refused env.load args.maxLoad], none, 2⟩
  else do
    let (lines, o, s) ← R.deriveOracle ord s
    R.judge env file args lines o s

/-- A run that gets to its end, with what it passes through. -/
structure Finished (s : σ) where
  probes : Probes T
  probed : σ
  loaded : σ
  /-- the state after the warm-up -/
  warm : σ
  last : σ
  deep : ℕ
  others : List ℕ
  refs : References (R.derived ord probes)
  corruption : List Corruption
  admitted : ¬ (args.maxLoad < env.load ∧ args.force = false)
  probes_eq : R.probes s = some (probes, probed)
  ordered_eq : (R.derived ord probes).ordered = deep :: others
  loaded_eq : R.setTensor probed R.input env.image = some loaded
  warm_eq : R.invokes args.warmup.toNat loaded = some warm
  refs_eq : R.references (R.derived ord probes) warm = some refs
  measured : R.measure env args (R.derived ord probes) refs.1 deep warm = some (corruption, last)
  reported : 0 < args.blocks ∧ env.reported = true

/-- One that is compared with a baseline. -/
structure Comparison (s : σ) extends Finished R ord env args s where
  path : String
  old : OracleEntry digits
  path_eq : args.baseline = some path
  old_eq : file path = some old

variable {R ord env file args} {s : σ}

def Finished.oracle (c : Finished R ord env args s) : OracleEntry id :=
  (R.derived ord c.probes).entry c.refs

def Finished.run (c : Finished R ord env args s) (tail : List Line) : Run :=
  result args (R.oracleLines ord c.probes) c.oracle c.corruption tail

def Comparison.run (c : Comparison R ord env file args s) : Run :=
  c.toFinished.run [verdict c.old.oh c.oracle.nh]

theorem Finished.main_eq (c : Finished R ord env args s) {tail : List Line}
    (htail : compared file args c.oracle = some tail) :
    R.main ord env file args s = some (c.run tail) := by
  have hbench : R.benchmark env args (R.derived ord c.probes) c.deep c.probed =
      some (c.oracle, c.corruption) := by
    simp [Runtime.benchmark, c.loaded_eq, c.warm_eq, c.refs_eq, c.measured, c.reported,
      Finished.oracle]
  rw [Runtime.main, if_neg c.admitted]
  simp only [Runtime.deriveOracle, c.probes_eq, Option.bind_eq_bind, Option.bind_some,
    Option.pure_def, Runtime.judge, c.ordered_eq, hbench, htail]
  rfl

theorem Comparison.main_eq (c : Comparison R ord env file args s) :
    R.main ord env file args s = some c.run := by
  apply c.toFinished.main_eq
  simp [compared, c.path_eq, c.old_eq]

theorem benchmark_some {o : Tensors} {deep : ℕ} {oracle : OracleEntry id}
    {corruption : List Corruption} (h : R.benchmark env args o deep s = some (oracle, corruption)) :
    ∃ loaded warm last refs, R.setTensor s R.input env.image = some loaded ∧
      R.invokes args.warmup.toNat loaded = some warm ∧ R.references o warm = some refs ∧
      R.measure env args o refs.1 deep warm = some (corruption, last) ∧
      (0 < args.blocks ∧ env.reported = true) ∧ oracle = o.entry refs := by
  simp only [Runtime.benchmark, Option.bind_eq_bind, Option.bind_eq_some_iff, Prod.exists,
    Option.guard_eq_some', Option.pure_def, Option.some.injEq, Prod.mk.injEq] at h
  have ⟨loaded, hl, warm, hw, refs, hr, c, last, hm, _, hg, ho, hc⟩ := h
  exact ⟨loaded, warm, last, refs, hl, hw, hr, hc ▸ hm, hg, ho.symm⟩

/-- How a run can end. -/
theorem main_cases {r : Run} (h : R.main ord env file args s = some r) :
    (args.maxLoad < env.load ∧ args.force = false) ∧
      r = ⟨[.refused env.load args.maxLoad], none, 2⟩ ∨
    (∃ p s', R.probes s = some (p, s') ∧ (∀ i, ¬ R.Kept p i) ∧
      r = ⟨R.oracleLines ord p ++ [.noTensor], none, 3⟩) ∨
    ∃ (c : Finished R ord env args s) (tail : List Line),
      compared file args c.oracle = some tail ∧ r = c.run tail := by
  unfold Runtime.main at h
  split at h
  · rename_i hbusy
    exact .inl ⟨hbusy, (Option.some.inj h).symm⟩
  · rename_i hadm
    simp only [Runtime.deriveOracle, Option.bind_eq_bind, Option.bind_eq_some_iff, Prod.exists,
      Option.pure_def, Option.some.injEq, Prod.mk.injEq] at h
    have ⟨_, _, _, ⟨p, s₁, hp, hlines, ho, hs⟩, hj⟩ := h
    rw [← hlines, ← ho, ← hs] at hj
    unfold Runtime.judge at hj
    split at hj
    · rename_i hnone
      refine .inr (.inl ⟨p, s₁, hp, ?_, (Option.some.inj hj).symm⟩)
      intro i hi
      rw [← mem_ordered R ord, hnone] at hi
      exact List.not_mem_nil hi
    · rename_i deep others hord
      simp only [Option.bind_eq_bind, Option.bind_eq_some_iff, Prod.exists] at hj
      have ⟨oracle, corruption, hb, tail, ht, he⟩ := hj
      have ⟨loaded, warm, last, refs, hl, hw, hr, hm, hg, horacle⟩ := benchmark_some hb
      rw [horacle] at ht he
      exact .inr (.inr ⟨⟨p, s₁, loaded, warm, last, deep, others, refs, corruption, hadm, hp, hord,
        hl, hw, hr, hm, hg⟩, tail, ht, (Option.some.inj he).symm⟩)

theorem bitExact_notMem_oracleLines (p : Probes T) (n : ℕ) :
    Line.bitExact n ∉ R.oracleLines ord p := by
  simp [Runtime.oracleLines, Runtime.listed]

theorem bitExact_notMem_report (corruption : List Corruption) (n : ℕ) :
    Line.bitExact n ∉ report corruption := by
  unfold report
  split
  · simp
  · intro h
    rcases List.mem_cons.mp h with he | hm
    · exact absurd he (by simp)
    · have ⟨c, _, he⟩ := List.mem_map.mp hm
      exact absurd he (by simp)

theorem Finished.mem_run (c : Finished R ord env args s) {tail : List Line} {n : ℕ} :
    Line.bitExact n ∈ (c.run tail).lines ↔ Line.bitExact n ∈ tail := by
  simp [Finished.run, result, bitExact_notMem_oracleLines, bitExact_notMem_report]

theorem Comparison.mem_run (c : Comparison R ord env file args s) (n : ℕ) :
    Line.bitExact n ∈ c.run.lines ↔ verdict c.old.oh c.oracle.nh = .bitExact n := by
  rw [Comparison.run, c.toFinished.mem_run, List.mem_singleton, eq_comm]

theorem compared_some {oracle : OracleEntry id} {tail : List Line} {n : ℕ}
    (h : compared file args oracle = some tail) (hn : Line.bitExact n ∈ tail) :
    ∃ path old, args.baseline = some path ∧ file path = some old ∧
      tail = [verdict old.oh oracle.nh] := by
  unfold compared at h
  split at h
  · rw [← Option.some.inj h] at hn
    exact absurd hn List.not_mem_nil
  · rename_i path hpath
    have ⟨old, hold, he⟩ := Option.map_eq_some_iff.mp h
    exact ⟨path, old, hpath, hold, he.symm⟩

/-- A bit-exact verdict comes from a comparison. -/
theorem exists_comparison {r : Run} {n : ℕ} (h : R.main ord env file args s = some r)
    (hn : Line.bitExact n ∈ r.lines) :
    ∃ c : Comparison R ord env file args s, r = c.run := by
  rcases main_cases h with ⟨_, hr⟩ | ⟨p, _, _, _, hr⟩ | ⟨c, tail, ht, hr⟩
  · simp [hr] at hn
  · simp [hr, bitExact_notMem_oracleLines] at hn
  · rw [hr, c.mem_run] at hn
    have ⟨path, old, hpath, hold, he⟩ := compared_some ht hn
    exact ⟨⟨c, path, old, hpath, hold⟩, by rw [hr, he]; rfl⟩

/-- The reference hash of a tensor that passed the probes is that of its contents after the
warm-up. -/
theorem Finished.lookup_reference (c : Finished R ord env args s) {i : ℕ}
    (hi : R.Kept c.probes i) :
    c.oracle.reference.lookup i = (R.getTensor c.warm i).map R.sha :=
  lookup_references _ _ c.refs_eq ((mem_ordered R ord).mpr hi)

theorem Finished.mem_tensors (c : Finished R ord env args s) {i : ℕ} :
    i ∈ c.oracle.tensors ↔ R.Kept c.probes i := mem_ordered R ord

/-- A run returns 0 when it gets to its end without a mismatch, whatever the comparison says. -/
theorem exit_zero_iff {r : Run} (h : R.main ord env file args s = some r) :
    r.exit = 0 ↔ ∃ (c : Finished R ord env args s) (tail : List Line),
      r = c.run tail ∧ c.corruption = [] := by
  constructor
  · intro h0
    rcases main_cases h with ⟨_, hr⟩ | ⟨p, _, _, _, hr⟩ | ⟨c, tail, _, hr⟩
    · exact absurd h0 (by simp [hr])
    · exact absurd h0 (by simp [hr])
    · refine ⟨c, tail, hr, ?_⟩
      simpa [hr, Finished.run, result] using h0
  · intro ⟨c, tail, hr, hc⟩
    simp [hr, Finished.run, result, hc]

/-- In a run without a mismatch the hashes of the quick tensors are in every iteration what they
were after the warm-up, and that of the deep one in every `deep_every`-th. -/
theorem Finished.checked (c : Finished R ord env args s) (hc : c.corruption = []) {b k : ℕ}
    (hb : b < args.blocks.toNat) (hk : k < env.iterations b) :
    ∃ t₀ t₁ t,
      collect (R.block env args (R.derived ord c.probes) c.refs.1 c.deep) b c.warm =
        some ([], t₀) ∧
      collect (R.iteration args (R.derived ord c.probes) c.refs.1 c.deep b) k t₀ = some ([], t₁) ∧
      R.invoke t₁ = some t ∧
      ∀ i, i ∈ (R.derived ord c.probes).fastIdx ∨ i = c.deep ∧ args.deepEvery ∣ (k + 1 : ℕ) →
        (R.getTensor t i).map R.sha = (R.getTensor c.warm i).map R.sha := by
  have hmeasured := c.measured
  rw [hc] at hmeasured
  have ⟨t₀, t₁, t, h₀, h₁, hinvoke, hfast, hdeep⟩ := measure_nil hmeasured hb hk
  refine ⟨t₀, t₁, t, h₀, h₁, hinvoke, ?_⟩
  have hsame : ∀ i ∈ (R.derived ord c.probes).ordered,
      (∃ x, R.getTensor t i = some x ∧ c.refs.1.lookup i = some (R.sha x)) →
        (R.getTensor t i).map R.sha = (R.getTensor c.warm i).map R.sha := by
    intro i hi ⟨x, hx, href⟩
    rw [← lookup_references _ _ c.refs_eq hi, href, hx]
    rfl
  intro i hi
  rcases hi with hi | ⟨hi, hd⟩
  · exact hsame i (mem_of_mem_fastIdx hi) (hfast i hi)
  · rw [hi]
    exact hsame _ (c.ordered_eq ▸ List.mem_cons_self) (hdeep hd)

/-- When a comparison that prints the bit-exact verdict has seen the whole baseline: when the
probes kept all of the baseline's tensors, or none of them, or one whose hash has changed. -/
theorem Comparison.covers_iff (c : Comparison R ord env file args s) :
    ((∃ n, Line.bitExact n ∈ c.run.lines) → c.old.CoveredBy c.oracle) ↔
      (∀ i ∈ c.old.tensors, R.Kept c.probes i) ∨ (∀ i ∈ c.old.tensors, ¬ R.Kept c.probes i) ∨
        ∃ i ∈ c.old.tensors, R.Kept c.probes i ∧
          (R.getTensor c.warm i).map R.sha ≠ c.old.reference.lookup (digits i) := by
  simp only [c.mem_run, verdict_covers_iff, c.mem_tensors]
  refine or_congr_right (or_congr_right ?_)
  refine exists_congr fun i => and_congr_right fun _ => and_congr_right fun hk => ?_
  rw [c.lookup_reference hk]

/-- How the verdict misses a tensor `j` of the baseline: the probes keep another, `i`, and those
that they keep have their old hashes. -/
theorem Comparison.misses (c : Comparison R ord env file args s) {i j : ℕ}
    (hi : i ∈ c.old.tensors) (hik : R.Kept c.probes i)
    (hj : j ∈ c.old.tensors) (hjk : ¬ R.Kept c.probes j)
    (hsame : ∀ k ∈ c.old.tensors, R.Kept c.probes k →
      (R.getTensor c.warm k).map R.sha = c.old.reference.lookup (digits k)) :
    (∃ n, Line.bitExact n ∈ c.run.lines) ∧ ¬ c.old.CoveredBy c.oracle := by
  apply Classical.not_imp.mp
  intro h
  rcases c.covers_iff.mp h with hall | hnone | ⟨k, hk, hkk, hne⟩
  · exact hjk (hall j hj)
  · exact hnone i hi hik
  · exact hne (hsame k hk hkk)

/-- On a board whose kept tensors do not change their hashes after the warm-up, there is no
mismatch. -/
theorem steady_finished {p : Probes T} {probed loaded warm : σ} {I : σ → Prop}
    (hadm : ¬ (args.maxLoad < env.load ∧ args.force = false))
    (hp : R.probes s = some (p, probed)) (hkept : ∃ i, R.Kept p i)
    (hl : R.setTensor probed R.input env.image = some loaded)
    (hw : R.invokes args.warmup.toNat loaded = some warm) (hI : I warm)
    (hinvoke : ∀ t, I t → ∃ t', R.invoke t = some t' ∧ I t')
    (hsha : ∀ t, I t → ∀ i, R.Kept p i →
      ∃ x y, R.getTensor t i = some x ∧ R.getTensor warm i = some y ∧ R.sha x = R.sha y)
    (hd : args.deepEvery ≠ 0) (hn : ∀ b, env.iterations b ≠ 0)
    (hr : 0 < args.blocks ∧ env.reported = true) :
    ∃ c : Finished R ord env args s, c.probes = p ∧ c.warm = warm ∧ c.corruption = [] := by
  have ⟨deep, others, hord⟩ : ∃ deep others, (R.derived ord p).ordered = deep :: others := by
    have ⟨i, hi⟩ := hkept
    exact List.exists_cons_of_ne_nil (List.ne_nil_of_mem ((mem_ordered R ord).mpr hi))
  have hdeep : deep ∈ (R.derived ord p).ordered := hord ▸ List.mem_cons_self
  have ⟨refs, hrefs⟩ : ∃ refs, R.references (R.derived ord p) warm = some refs := by
    refine ⟨_, dif_pos ?_⟩
    intro i hi
    have ⟨_, y, _, hy, _⟩ := hsha warm hI i ((mem_ordered R ord).mp hi)
    rw [hy]
    rfl
  have hrefsha : ∀ t, I t → ∀ i ∈ (R.derived ord p).ordered,
      ∃ x, R.getTensor t i = some x ∧ refs.1.lookup i = some (R.sha x) := by
    intro t ht i hi
    have ⟨x, y, hx, hy, hxy⟩ := hsha t ht i ((mem_ordered R ord).mp hi)
    exact ⟨x, hx, by rw [lookup_references _ _ hrefs hi, hy, hxy]; rfl⟩
  have ⟨last, hm⟩ := measure_steady hI hinvoke hrefsha hdeep hd hn
  exact ⟨⟨p, probed, loaded, warm, last, deep, others, refs, [], hadm, hp, hord, hl, hw, hrefs, hm,
    hr⟩, rfl, rfl, rfl⟩

/-- The verdict speaks of the whole baseline exactly when each run that gets to the comparison
meets the condition of `Comparison.covers_iff`. -/
theorem bitExact_covers_baseline_iff (R : Runtime σ T) (ord : SetOrder) (env : Env T)
    (file : String → Option (OracleEntry digits)) (args : Args) (s : σ) :
    (∀ r path old n, R.main ord env file args s = some r → args.baseline = some path →
      file path = some old → Line.bitExact n ∈ r.lines →
        ∃ new, r.saved = some new ∧ old.CoveredBy new.oracle) ↔
    ∀ c : Comparison R ord env file args s,
      (∀ i ∈ c.old.tensors, R.Kept c.probes i) ∨ (∀ i ∈ c.old.tensors, ¬ R.Kept c.probes i) ∨
        ∃ i ∈ c.old.tensors, R.Kept c.probes i ∧
          (R.getTensor c.warm i).map R.sha ≠ c.old.reference.lookup (digits i) := by
  constructor
  · intro h c
    apply c.covers_iff.mp
    intro ⟨n, hn⟩
    have ⟨new, hnew, hcov⟩ := h c.run c.path c.old n c.main_eq c.path_eq c.old_eq hn
    have he : Payload.mk c.oracle c.corruption.isEmpty (c.corruption.take 50) = new :=
      Option.some.inj hnew
    rw [← he] at hcov
    exact hcov
  · intro h r path old n hr hpath hold hn
    have ⟨c, hc⟩ := exists_comparison hr hn
    have hp : c.path = path := Option.some.inj (c.path_eq.symm.trans hpath)
    have ho : c.old = old := Option.some.inj (c.old_eq.symm.trans (hp ▸ hold))
    rw [hc] at hn ⊢
    exact ⟨_, rfl, ho ▸ c.covers_iff.mpr (h c) ⟨n, hn⟩⟩

/-- A picture, what the last invocation made of it, and how many invocations there were. -/
structure Board where
  picture : ℕ
  made : ℕ
  count : ℕ

/-- A model with two tensors besides its input. On a board that drifts, the second comes out
otherwise in each invocation. -/
def board (drift : Bool) : Runtime Board (List ℕ) where
  details := [(0, "input"), (5, "conv"), (8, "pool")]
  input := 0
  setTensor b _ t := some { b with picture := t.headD 0 }
  invoke b := some ⟨b.picture, b.picture, b.count + 1⟩
  getTensor b i :=
    match i with
    | 0 => some [b.picture, b.picture]
    | 5 => some [b.made, b.made]
    | 8 => some [b.made, if drift then b.count else 0]
    | _ => none
  size := List.length
  nbytes := List.length
  arrayEqual x y := x = y
  sha := toString
  integers seed := [seed, seed]

def boardEnv : Env (List ℕ) := ⟨0, [3, 3], fun _ => 1000, true⟩

def boardArgs (compare : Option String) : Args := ⟨10, 3, 50, 8, false, compare⟩

def boardProbes (drift : Bool) : Probes (List ℕ) :=
  let snap := fun picture n => (board drift).snap ⟨picture, picture, n⟩
  ⟨snap 7 1, snap 99 2, snap 7 3, [snap 7 4, snap 7 5]⟩

theorem board_kept (drift : Bool) {i : ℕ} :
    (board drift).Kept (boardProbes drift) i ↔ i = 5 ∨ i = 8 ∧ drift = false := by
  rw [← mem_stable]
  cases drift
  · have hs : (board false).stable (boardProbes false) = {8, 5} := rfl
    rw [hs]
    simp [or_comm]
  · have hs : (board true).stable (boardProbes true) = {5} := rfl
    rw [hs]
    simp

theorem board_finished (drift : Bool) (compare : Option String) :
    ∃ c : Finished (board drift) .ascending boardEnv (boardArgs compare) ⟨0, 0, 0⟩,
      c.probes = boardProbes drift ∧ c.warm = ⟨3, 3, 15⟩ ∧ c.corruption = [] := by
  have hp : (board drift).probes ⟨0, 0, 0⟩ = some (boardProbes drift, ⟨7, 7, 5⟩) := rfl
  have hl : (board drift).setTensor ⟨7, 7, 5⟩ 0 boardEnv.image = some ⟨3, 7, 5⟩ := rfl
  have hw : (board drift).invokes (boardArgs compare).warmup.toNat ⟨3, 7, 5⟩ =
      some ⟨3, 3, 15⟩ := rfl
  have hload : ¬ ((8 : ℚ) < 0 ∧ false = false) := by decide
  apply steady_finished (I := fun b => b.picture = 3 ∧ b.made = 3) hload hp ?_ hl hw ⟨rfl, rfl⟩
  · intro b hb
    exact ⟨_, rfl, hb.1, hb.1⟩
  · intro b hb i hi
    rcases (board_kept drift).mp hi with h5 | ⟨h8, hd⟩
    · exact ⟨[3, 3], [3, 3], by rw [h5, board]; simp [hb.2], by rw [h5]; rfl, rfl⟩
    · exact ⟨[3, 0], [3, 0], by rw [h8, hd, board]; simp [hb.2], by rw [h8, hd]; rfl, rfl⟩
  · exact (by decide : (50 : ℤ) ≠ 0)
  · exact fun _ => (by decide : 1000 ≠ 0)
  · exact ⟨(by decide : (0 : ℤ) < 3), rfl⟩
  · exact ⟨5, (board_kept drift).mpr (.inl rfl)⟩

/-- At the rated clock both tensors are in the baseline. At a clock at which the second drifts the
probes drop it, and the verdict on what is left is bit-exact. -/
theorem bitExact_misses_dropped_tensor : ∃ rated base fast,
    (board false).main .ascending boardEnv (fun _ => none) (boardArgs none) ⟨0, 0, 0⟩ =
      some rated ∧
    rated.saved = some base ∧
    (board true).main .ascending boardEnv (fun _ => some base.oracle.dump)
      (boardArgs (some "baseline.json")) ⟨0, 0, 0⟩ = some fast ∧
    (∃ n, Line.bitExact n ∈ fast.lines) ∧ fast.exit = 0 ∧
    ∀ new, fast.saved = some new → ¬ base.oracle.dump.CoveredBy new.oracle := by
  have ⟨c₀, hp₀, hw₀, _⟩ := board_finished false none
  have ⟨c₁, hp₁, hw₁, hc₁⟩ := board_finished true (some "baseline.json")
  let c : Comparison (board true) .ascending boardEnv (fun _ => some c₀.oracle.dump)
    (boardArgs (some "baseline.json")) ⟨0, 0, 0⟩ := ⟨c₁, "baseline.json", c₀.oracle.dump, rfl, rfl⟩
  have hold : ∀ i, i ∈ c.old.tensors ↔ i = 5 ∨ i = 8 := by
    intro i
    change i ∈ c₀.oracle.tensors ↔ _
    rw [c₀.mem_tensors, hp₀, board_kept]
    simp
  have hkept : ∀ i, (board true).Kept c.probes i ↔ i = 5 := by
    intro i
    change (board true).Kept c₁.probes i ↔ _
    rw [hp₁, board_kept]
    simp
  have hsame : ∀ i ∈ c.old.tensors, (board true).Kept c.probes i →
      ((board true).getTensor c.warm i).map (board true).sha =
        c.old.reference.lookup (digits i) := by
    intro i _ hi
    have h5 : (board false).Kept c₀.probes i := by
      rw [hp₀, board_kept]
      exact .inl ((hkept i).mp hi)
    change Option.map _ ((board true).getTensor c₁.warm i) =
      c₀.oracle.dump.reference.lookup (digits i)
    rw [lookup_dump, c₀.lookup_reference h5, hw₀, hw₁, (hkept i).mp hi]
    rfl
  have ⟨hbit, hcov⟩ := c.misses ((hold 5).mpr (.inl rfl)) ((hkept 5).mpr rfl)
    ((hold 8).mpr (.inr rfl)) (mt (hkept 8).mp (by decide)) hsame
  refine ⟨c₀.run [], _, c.run, c₀.main_eq rfl, rfl, c.main_eq, hbit, ?_, ?_⟩
  · change (if c₁.corruption = [] then 0 else 1) = 0
    rw [if_pos hc₁]
  · intro new hnew hcovered
    rw [← Option.some.inj hnew] at hcovered
    exact hcov hcovered

end RocketNpu.Bench
