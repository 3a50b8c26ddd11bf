import RocketNpu.Bench.Main

namespace RocketNpu.Bench
open Dict

variable {σ T : Type} {R : Runtime σ T} {ord : SetOrder} {env : Env T}
  {file : String → Option (OracleEntry digits)} {args : Args} {o : Tensors} {ref : Hashes}
  {b it deep i n : ℕ} {s s' : σ} {c : List Corruption}

/-- How many iterations come before block `b`. -/
def Env.before (env : Env T) : ℕ → ℕ
  | 0 => 0
  | b + 1 => env.before b + env.iterations b

/-- The tensors that are hashed in iteration `it` of a block. -/
def Tensors.checked (o : Tensors) (args : Args) (deep it : ℕ) : List ℕ :=
  o.fastIdx ++ if args.deepEvery ∣ it then [deep] else []

/-- The hash of a tensor that is not the reference. -/
def Runtime.mismatch (R : Runtime σ T) (o : Tensors) (ref : Hashes) (b it : ℕ) (s : σ) (i : ℕ) :
    Option Corruption := do
  let got ← (R.getTensor s i).map R.sha
  let want ← ref.lookup i
  guard (got ≠ want)
  let name ← o.names.lookup i
  return ⟨b, it, i, name, got, want⟩

/-- The mismatches of a measurement that starts in the state `s`: in the order of the blocks, of
their iterations, and of the tensors that are hashed in them. -/
def Runtime.mismatches (R : Runtime σ T) (env : Env T) (args : Args) (o : Tensors) (ref : Hashes)
    (deep : ℕ) (s : σ) : List Corruption :=
  (List.range args.blocks.toNat).flatMap fun b =>
    (List.range (env.iterations b)).flatMap fun k =>
      (R.invokes (env.before b + k + 1) s).elim [] fun t =>
        (o.checked args deep (k + 1)).filterMap (R.mismatch o ref b (k + 1) t)

theorem invokes_add (m n : ℕ) (s : σ) :
    R.invokes (m + n) s = (R.invokes m s).bind (R.invokes n) := by
  induction m generalizing s with
  | zero => simp [Runtime.invokes]
  | succ m ih =>
    rw [Nat.succ_add]
    simp only [Runtime.invokes, Option.bind_eq_bind, Option.bind_assoc]
    exact Option.bind_congr fun t _ => ih t

theorem check_eq (h : R.check o ref b it s i = some c) :
    c = (R.mismatch o ref b it s i).toList := by
  simp only [Runtime.check, Option.bind_eq_bind, Option.bind_eq_some_iff] at h
  obtain ⟨got, hgot, want, hwant, h⟩ := h
  split at h
  · rename_i he
    simp [Runtime.mismatch, hgot, hwant, he, ← Option.some.inj h]
  · rename_i hne
    obtain ⟨name, hname, hc⟩ := Option.bind_eq_some_iff.mp h
    simp [Runtime.mismatch, hgot, hwant, hne, hname, ← Option.some.inj hc]

theorem checks_eq {is : List ℕ} (h : R.checks o ref b it s is = some c) :
    c = is.filterMap (R.mismatch o ref b it s) := by
  induction is generalizing c with
  | nil => exact (Option.some.inj h).symm
  | cons i is ih =>
    simp only [Runtime.checks, Option.bind_eq_bind, Option.bind_eq_some_iff] at h
    obtain ⟨c₁, h₁, c₂, h₂, he⟩ := h
    rw [← Option.some.inj he, check_eq h₁, ih h₂, List.filterMap_cons]
    cases R.mismatch o ref b it s i <;> rfl

theorem deepCheck_eq (h : R.deepCheck args o ref deep b it s = some c) :
    c = (if args.deepEvery ∣ it then [deep] else []).filterMap (R.mismatch o ref b it s) := by
  unfold Runtime.deepCheck at h
  split at h
  · exact absurd h (by simp)
  · split at h
    · rename_i hd
      rw [if_pos (Int.dvd_of_emod_eq_zero hd), check_eq h]
      cases hm : R.mismatch o ref b it s deep <;> simp [hm]
    · rename_i hd
      rw [if_neg (mt Int.emod_eq_zero_of_dvd hd)]
      exact (Option.some.inj h).symm

theorem iteration_eq {k : ℕ} (h : R.iteration args o ref deep b k s = some (c, s')) :
    R.invoke s = some s' ∧
      c = (o.checked args deep (k + 1)).filterMap (R.mismatch o ref b (k + 1) s') := by
  simp only [Runtime.iteration, Option.bind_eq_bind, Option.bind_eq_some_iff] at h
  obtain ⟨t, hinvoke, fast, hfast, late, hlate, he⟩ := h
  obtain ⟨hc, ht⟩ := Prod.mk.inj (Option.some.inj he)
  rw [← ht, ← hc, checks_eq hfast, deepCheck_eq hlate, Tensors.checked, List.filterMap_append]
  exact ⟨hinvoke, rfl⟩

/-- A loop of invocations: what it collects is read off the states they lead to. -/
theorem collect_invokes {round : ℕ → σ → Option (List Corruption × σ)}
    {f : ℕ → σ → List Corruption}
    (hround : ∀ k t c t', round k t = some (c, t') → R.invoke t = some t' ∧ c = f k t')
    (h : collect round n s = some (c, s')) :
    R.invokes n s = some s' ∧
      c = (List.range n).flatMap fun k => (R.invokes (k + 1) s).elim [] (f k) := by
  induction n generalizing c s' with
  | zero =>
    have ⟨hc, hs⟩ := Prod.mk.inj (Option.some.inj h)
    exact ⟨congrArg some hs, hc.symm⟩
  | succ n ih =>
    have ⟨c₁, t, c₂, h₁, h₂, hc⟩ := collect_succ h
    have ⟨ht, hc₁⟩ := ih h₁
    have ⟨hs, hc₂⟩ := hround n t c₂ s' h₂
    have hn : R.invokes (n + 1) s = some s' := by
      rw [invokes_add, ht]
      simp [Runtime.invokes, hs]
    refine ⟨hn, ?_⟩
    rw [List.range_succ, List.flatMap_append, ← hc₁, hc, hc₂]
    simp [hn]

theorem collect_iterations {k : ℕ}
    (h : collect (R.iteration args o ref deep b) k s = some (c, s')) :
    R.invokes k s = some s' ∧
      c = (List.range k).flatMap fun j => (R.invokes (j + 1) s).elim [] fun t =>
        (o.checked args deep (j + 1)).filterMap (R.mismatch o ref b (j + 1) t) :=
  collect_invokes (fun _ _ _ _ => iteration_eq) h

theorem collect_blocks (h : collect (R.block env args o ref deep) n s = some (c, s')) :
    R.invokes (env.before n) s = some s' ∧
      c = (List.range n).flatMap fun b => (List.range (env.iterations b)).flatMap fun k =>
        (R.invokes (env.before b + k + 1) s).elim [] fun t =>
          (o.checked args deep (k + 1)).filterMap (R.mismatch o ref b (k + 1) t) := by
  induction n generalizing c s' with
  | zero =>
    obtain ⟨hc, hs⟩ := Prod.mk.inj (Option.some.inj h)
    exact ⟨congrArg some hs, hc.symm⟩
  | succ n ih =>
    obtain ⟨c₁, t, c₂, h₁, h₂, hc⟩ := collect_succ h
    obtain ⟨ht, hc₁⟩ := ih h₁
    simp only [Runtime.block, Option.bind_eq_bind, Option.bind_eq_some_iff] at h₂
    obtain ⟨_, _, hiter⟩ := h₂
    obtain ⟨hs, hc₂⟩ := collect_iterations hiter
    refine ⟨by rw [Env.before, invokes_add, ht, Option.bind_some, hs], ?_⟩
    rw [List.range_succ, List.flatMap_append, ← hc₁, hc, hc₂]
    simp [Nat.add_assoc, invokes_add (env.before n), ht]

theorem mismatch_eq_none {got : T} (ht : R.getTensor s i = some got)
    (hwant : ref.lookup i = some (R.sha got)) : R.mismatch o ref b it s i = none := by
  simp [Runtime.mismatch, ht, hwant]

theorem mem_of_mem_checked (hdeep : deep ∈ o.ordered) (h : i ∈ o.checked args deep it) :
    i ∈ o.ordered := by
  rcases List.mem_append.mp h with hfast | hlate
  · exact mem_of_mem_fastIdx hfast
  · split at hlate
    · exact List.mem_singleton.mp hlate ▸ hdeep
    · exact absurd hlate List.not_mem_nil

/-- The mismatches of a run that gets to its end. -/
def Finished.mismatches (c : Finished R ord env args s) : List Corruption :=
  R.mismatches env args (R.derived ord c.probes) c.refs.1 c.deep c.warm

theorem Finished.corruption_eq (c : Finished R ord env args s) : c.corruption = c.mismatches :=
  (collect_blocks c.measured).2

/-- In every iteration the tensors that are hashed have the hashes they had after the warm-up. -/
def Finished.Unchanged (c : Finished R ord env args s) : Prop :=
  ∀ b < args.blocks.toNat, ∀ k < env.iterations b,
    ∃ t, R.invokes (env.before b + k + 1) c.warm = some t ∧
      ∀ i ∈ (R.derived ord c.probes).checked args c.deep (k + 1),
        (R.getTensor t i).map R.sha = (R.getTensor c.warm i).map R.sha

theorem Finished.unchanged_iff (c : Finished R ord env args s) :
    c.corruption = [] ↔ c.Unchanged := by
  constructor
  · intro hc b hb k hk
    have ⟨t₀, t₁, t, h₀, h₁, hinvoke, hsame⟩ := c.checked hc hb hk
    refine ⟨t, ?_, fun i hi => hsame i ?_⟩
    · rw [invokes_add, invokes_add, (collect_blocks h₀).1, Option.bind_some,
        (collect_iterations h₁).1]
      simp [Runtime.invokes, hinvoke]
    · rcases List.mem_append.mp hi with hfast | hlate
      · exact .inl hfast
      · split at hlate
        · rename_i hd
          exact .inr ⟨List.mem_singleton.mp hlate, hd⟩
        · exact absurd hlate List.not_mem_nil
  · intro h
    rw [c.corruption_eq, Finished.mismatches, Runtime.mismatches, List.flatMap_eq_nil_iff]
    intro b hb
    rw [List.flatMap_eq_nil_iff]
    intro k hk
    have ⟨t, ht, hsame⟩ := h b (List.mem_range.mp hb) k (List.mem_range.mp hk)
    rw [ht, Option.elim_some, List.filterMap_eq_nil_iff]
    intro i hi
    have hord : i ∈ (R.derived ord c.probes).ordered :=
      mem_of_mem_checked (c.ordered_eq ▸ List.mem_cons_self) hi
    have hwant := (lookup_references _ _ c.refs_eq hord).trans (hsame i hi).symm
    have ⟨want, hsome⟩ := Option.isSome_iff_exists.mp
      (AList.lookup_isSome.mpr ((c.refs.2 i).mpr hord))
    have ⟨got, hgot, _⟩ := Option.map_eq_some_iff.mp (hwant.symm.trans hsome)
    exact mismatch_eq_none hgot (by rw [hwant, hgot]; rfl)

/-- A run that gets to its end reports the tensors whose hashes have changed since the warm-up:
all of them in its count, the first ones in its lines and its file. -/
theorem main_reports {r : Run} (h : R.main ord env file args s = some r) (hr : r.exit < 2) :
    ∃ (c : Finished R ord env args s) (tail : List Line),
      r.lines = R.oracleLines ord c.probes ++
        .reference args.warmup :: (report c.mismatches ++ tail) ∧
      r.saved = some ⟨c.oracle, c.mismatches.isEmpty, c.mismatches.take 50⟩ ∧
      (r.exit = 0 ↔ c.Unchanged) := by
  rcases main_cases h with ⟨_, he⟩ | ⟨p, _, _, _, he⟩ | ⟨c, tail, _, he⟩
  · exact absurd hr (by simp [he])
  · exact absurd hr (by simp [he])
  · refine ⟨c, tail, ?_, ?_, ?_⟩
    · rw [he, ← c.corruption_eq]
      rfl
    · rw [he, ← c.corruption_eq]
      rfl
    · rw [← c.unchanged_iff, he]
      simp [Finished.run, result]

/-- A model with one tensor to judge, which from the eighth invocation on comes out otherwise. -/
def heated : Runtime Board (List ℕ) where
  __ := board true
  getTensor b i :=
    if i = 5 then some [b.made, if 7 < b.count then 1 else 0] else (board true).getTensor b i

def heatedEnv : Env (List ℕ) := ⟨0, [3, 3], fun _ => 3, true⟩

/-- One invocation to warm up, and one block, in which every third hashes the largest tensor. -/
def heatedArgs : Args := ⟨1, 1, 3, 8, false, none⟩

def heatedProbes : Probes (List ℕ) :=
  let snap := fun picture n => heated.snap ⟨picture, picture, n⟩
  ⟨snap 7 1, snap 99 2, snap 7 3, [snap 7 4, snap 7 5]⟩

theorem heated_list : SetOrder.ascending.list (heated.stable heatedProbes) = [5] := by
  have hstable : heated.stable heatedProbes = {5} := rfl
  rw [hstable]
  decide

theorem heated_ordered : (heated.derived .ascending heatedProbes).ordered = [5] := by
  change bySize _ (SetOrder.ascending.list (heated.stable heatedProbes)) = [5]
  rw [heated_list]
  exact List.mergeSort_singleton 5

theorem heated_name : (heated.derived .ascending heatedProbes).names.lookup 5 = some "conv" := by
  change AList.lookup 5 (build (SetOrder.ascending.list (heated.stable heatedProbes)) _) = _
  rw [heated_list]
  rfl

theorem heated_finished : ∃ c : Finished heated .ascending heatedEnv heatedArgs ⟨0, 0, 0⟩,
    c.corruption.map Corruption.iter = [2, 3, 3] := by
  have ⟨refs, hrefs⟩ :
      ∃ refs, heated.references (heated.derived .ascending heatedProbes) ⟨3, 3, 6⟩ = some refs := by
    refine ⟨_, dif_pos ?_⟩
    rw [heated_ordered]
    exact List.forall_mem_singleton.mpr rfl
  have hwant : refs.1.lookup 5 = some (heated.sha [3, 0]) := by
    rw [lookup_references heated _ hrefs (heated_ordered ▸ List.mem_singleton_self 5)]
    rfl
  have hfast := fastIdx_singleton heated_ordered
  have hcold : heated.check (heated.derived .ascending heatedProbes) refs.1 0 1 ⟨3, 3, 7⟩ 5 =
      some [] := (check_nil_iff _ _ _).mpr ⟨[3, 0], rfl, hwant⟩
  have hne : heated.sha [3, 1] ≠ heated.sha [3, 0] := by decide
  have hhot (it n : ℕ) (hn : 7 < n) :
      heated.check (heated.derived .ascending heatedProbes) refs.1 0 it ⟨3, 3, n⟩ 5 =
        some [⟨0, it, 5, "conv", heated.sha [3, 1], heated.sha [3, 0]⟩] :=
    check_changed (by simp [heated, hn]) hwant heated_name hne
  have hinvoke (n : ℕ) : heated.invoke ⟨3, 3, n⟩ = some ⟨3, 3, n + 1⟩ := rfl
  have hm : heated.measure heatedEnv heatedArgs (heated.derived .ascending heatedProbes) refs.1 5
      ⟨3, 3, 6⟩ = some ([2, 3, 3].map fun it =>
        ⟨0, it, 5, "conv", heated.sha [3, 1], heated.sha [3, 0]⟩, ⟨3, 3, 9⟩) := by
    simp [Runtime.measure, Runtime.block, Runtime.iteration, Runtime.deepCheck, Runtime.checks,
      collect, heatedEnv, heatedArgs, hfast, hcold, hhot, hinvoke]
  exact ⟨⟨heatedProbes, ⟨7, 7, 5⟩, ⟨3, 7, 5⟩, ⟨3, 3, 6⟩, ⟨3, 3, 9⟩, 5, [], refs, _, by decide, rfl,
    heated_ordered, rfl, rfl, hrefs, hm, ⟨by decide, rfl⟩⟩, rfl⟩

/-- One tensor that comes out otherwise in two iterations, the second of which hashes it twice, is
three mismatches. -/
theorem main_reports_heated : ∃ (r : Run)
    (c : Finished heated .ascending heatedEnv heatedArgs ⟨0, 0, 0⟩),
    heated.main .ascending heatedEnv (fun _ => none) heatedArgs ⟨0, 0, 0⟩ = some r ∧
      r.exit = 1 ∧ ¬ c.Unchanged ∧ c.mismatches.map Corruption.iter = [2, 3, 3] ∧
      Line.failed 3 ∈ r.lines := by
  obtain ⟨c, hc⟩ := heated_finished
  have hmain : heated.main .ascending heatedEnv (fun _ => none) heatedArgs ⟨0, 0, 0⟩ =
      some (c.run []) := c.main_eq rfl
  have hne : c.corruption ≠ [] := by
    intro hnil
    simp [hnil] at hc
  have hexit : (c.run []).exit = 1 := if_neg hne
  obtain ⟨c', tail, hlines, hsaved, hiff⟩ := main_reports hmain (by omega)
  have htake : c'.mismatches.take 50 = c.corruption.take 50 :=
    (congrArg Payload.corruption (Option.some.inj hsaved)).symm
  have hthree : c.corruption.length = 3 := by simpa using congrArg List.length hc
  have hlen : c'.mismatches.length = 3 := by
    have hl := congrArg List.length htake
    rw [List.length_take, List.length_take, hthree] at hl
    omega
  have hmis : c'.mismatches = c.corruption := by
    rwa [List.take_of_length_le (by omega), List.take_of_length_le (by omega)] at htake
  refine ⟨c.run [], c', hmain, hexit, mt hiff.mpr (by omega), hmis ▸ hc, ?_⟩
  rw [hlines, report, if_neg (hmis ▸ hne), hlen]
  simp

section
variable {old : OracleEntry digits} {new : OracleEntry id}

theorem mem_oh {k : String} : k ∈ old.oh ↔ ∃ i ∈ old.tensors, digits i = k :=
  (mem_mapKeys Function.injective_id).trans (old.mem_reference k)

/-- The names of the common tensors are the digits of their indices. -/
theorem card_common : (common old.oh new.nh).card =
    (old.tensors.toFinset ∩ new.tensors.toFinset).card := by
  have himage : common old.oh new.nh =
      (old.tensors.toFinset ∩ new.tensors.toFinset).image digits := by
    ext k
    rw [mem_common, Finset.mem_image, mem_oh]
    constructor
    · intro ⟨⟨i, hi, he⟩, hn⟩
      have hin : i ∈ new.tensors := mem_nh.mp (he ▸ hn)
      exact ⟨i, by simp [hi, hin], he⟩
    · intro ⟨i, hi, he⟩
      have ⟨hio, hin⟩ := Finset.mem_inter.mp hi
      exact ⟨⟨i, List.mem_toFinset.mp hio, he⟩, he ▸ mem_nh.mpr (List.mem_toFinset.mp hin)⟩
  rw [himage, Finset.card_image_of_injective _ digits_injective]

theorem verdict_eq_bitExact_iff : verdict old.oh new.nh = .bitExact n ↔
    n = (old.tensors.toFinset ∩ new.tensors.toFinset).card ∧ 0 < n ∧
      ∀ i ∈ old.tensors, i ∈ new.tensors →
        new.reference.lookup i = old.reference.lookup (digits i) := by
  have hcard : ∀ m, verdict old.oh new.nh = .bitExact m → m = (common old.oh new.nh).card := by
    intro m hm
    unfold verdict at hm
    split at hm
    · cases hm
    · split at hm
      · cases hm
      · exact (Line.bitExact.inj hm).symm
  have hagree : Agree old.oh new.nh ↔ ∀ i ∈ old.tensors, i ∈ new.tensors →
      new.reference.lookup i = old.reference.lookup (digits i) := by
    rw [Agree, forall_oh]
    simp only [lookup_oh, lookup_nh, mem_nh]
  have hoverlap : Overlap old.oh new.nh ↔ 0 < (common old.oh new.nh).card := by
    rw [Finset.card_pos]
    exact exists_congr fun k => mem_common.symm
  rw [← card_common, ← hagree]
  constructor
  · intro h
    obtain ⟨hov, hag⟩ := verdict_bitExact_iff.mp ⟨n, h⟩
    have hn := hcard n h
    exact ⟨hn, hn ▸ hoverlap.mp hov, hag⟩
  · rintro ⟨hn, hpos, hag⟩
    obtain ⟨m, hm⟩ := verdict_bitExact_iff.mpr ⟨hoverlap.mpr (hn ▸ hpos), hag⟩
    rw [hm, hn, hcard m hm]

end

/-- Tensor `i` has this hash in one of the iterations that hash it. -/
def Finished.Hashed (c : Finished R ord env args s) (i : ℕ) (hash : Option String) : Prop :=
  ∃ b < args.blocks.toNat, ∃ k < env.iterations b,
    i ∈ (R.derived ord c.probes).checked args c.deep (k + 1) ∧
      ∃ t, R.invokes (env.before b + k + 1) c.warm = some t ∧ hash = (R.getTensor t i).map R.sha

theorem Finished.Unchanged.reference {c : Finished R ord env args s} (hc : c.Unchanged)
    {hash : Option String} (h : c.Hashed i hash) :
    i ∈ c.oracle.tensors ∧ hash = c.oracle.reference.lookup i := by
  have ⟨b, hb, k, hk, hi, t, ht, he⟩ := h
  have ⟨t', ht', hsame⟩ := hc b hb k hk
  have hord : i ∈ (R.derived ord c.probes).ordered :=
    mem_of_mem_checked (c.ordered_eq ▸ List.mem_cons_self) hi
  have htt : t = t' := Option.some.inj (ht.symm.trans ht')
  refine ⟨hord, ?_⟩
  rw [he, htt, hsame i hi]
  exact (lookup_references _ _ c.refs_eq hord).symm

/-- Two runs that both return 0, the second with the bit-exact verdict on the file of the first:
a tensor that is hashed in both has one hash, in whichever iterations of the two. -/
theorem bitExact_agrees {σ₀ T₀ : Type} {R₀ : Runtime σ₀ T₀} {ord₀ : SetOrder} {env₀ : Env T₀}
    {file₀ : String → Option (OracleEntry digits)} {args₀ : Args} {s₀ : σ₀} {r₀ r : Run}
    {base : Payload} {path : String} (h₀ : R₀.main ord₀ env₀ file₀ args₀ s₀ = some r₀)
    (hexit₀ : r₀.exit = 0) (hbase : r₀.saved = some base) (h : R.main ord env file args s = some r)
    (hexit : r.exit = 0) (hpath : args.baseline = some path)
    (hfile : file path = some base.oracle.dump) (hn : Line.bitExact n ∈ r.lines) :
    ∃ (c₀ : Finished R₀ ord₀ env₀ args₀ s₀) (c : Finished R ord env args s),
      c₀.Unchanged ∧ c.Unchanged ∧ 0 < n ∧
      n = (c₀.oracle.tensors.toFinset ∩ c.oracle.tensors.toFinset).card ∧
      ∀ i x y, c₀.Hashed i x → c.Hashed i y → x = y := by
  obtain ⟨c₀, tail₀, hr₀, hc₀⟩ := (exit_zero_iff h₀).mp hexit₀
  obtain ⟨c, hr⟩ := exists_comparison h hn
  have hc : c.corruption = [] := by
    simpa [hr, Comparison.run, Finished.run, result] using hexit
  have hold : c.old = c₀.oracle.dump := by
    have hsaved : r₀.saved = some ⟨c₀.oracle, c₀.corruption.isEmpty, c₀.corruption.take 50⟩ :=
      hr₀ ▸ rfl
    have horacle : c₀.oracle = base.oracle :=
      congrArg Payload.oracle (Option.some.inj (hsaved.symm.trans hbase))
    have hp : c.path = path := Option.some.inj (c.path_eq.symm.trans hpath)
    rw [horacle]
    exact Option.some.inj (c.old_eq.symm.trans (hp ▸ hfile))
  rw [hr, c.mem_run, verdict_eq_bitExact_iff, hold] at hn
  obtain ⟨hcard, hpos, hagree⟩ := hn
  have hun₀ := c₀.unchanged_iff.mp hc₀
  have hun := c.toFinished.unchanged_iff.mp hc
  refine ⟨c₀, c.toFinished, hun₀, hun, hpos, hcard, ?_⟩
  intro i x y hx hy
  obtain ⟨hi₀, hx⟩ := hun₀.reference hx
  obtain ⟨hi, hy⟩ := hun.reference hy
  calc
    x = c₀.oracle.reference.lookup i := hx
    _ = c₀.oracle.dump.reference.lookup (digits i) := lookup_dump.symm
    _ = c.oracle.reference.lookup i := (hagree i hi₀ hi).symm
    _ = y := hy.symm

/-- The board is measured twice. -/
theorem bitExact_agrees_board : ∃ (n : ℕ)
    (c₀ : Finished (board false) .ascending boardEnv (boardArgs none) ⟨0, 0, 0⟩)
    (c : Finished (board false) .ascending boardEnv (boardArgs (some "baseline.json")) ⟨0, 0, 0⟩),
    0 < n ∧ ∀ i x y, c₀.Hashed i x → c.Hashed i y → x = y := by
  obtain ⟨c₀, hp₀, hw₀, hc₀⟩ := board_finished false none
  obtain ⟨c₁, hp₁, hw₁, hc₁⟩ := board_finished false (some "baseline.json")
  let c : Comparison (board false) .ascending boardEnv (fun _ => some c₀.oracle.dump)
    (boardArgs (some "baseline.json")) ⟨0, 0, 0⟩ := ⟨c₁, "baseline.json", c₀.oracle.dump, rfl, rfl⟩
  have hkept : ∀ i, i ∈ c₀.oracle.tensors ↔ i ∈ c₁.oracle.tensors := by
    intro i
    rw [c₀.mem_tensors, c₁.mem_tensors, hp₀, hp₁]
  have hboth : 5 ∈ c₀.oracle.tensors := by
    rw [c₀.mem_tensors, hp₀, board_kept]
    exact .inl rfl
  have hbit : Line.bitExact (c₀.oracle.tensors.toFinset ∩ c₁.oracle.tensors.toFinset).card ∈
      c.run.lines := by
    rw [c.mem_run, verdict_eq_bitExact_iff]
    refine ⟨rfl, Finset.card_pos.mpr ⟨5, by simp [hboth, ← hkept]⟩, fun i hi hi' => ?_⟩
    change c₁.oracle.reference.lookup i = c₀.oracle.dump.reference.lookup (digits i)
    rw [lookup_dump, c₀.lookup_reference (c₀.mem_tensors.mp hi),
      c₁.lookup_reference (c₁.mem_tensors.mp hi'), hw₀, hw₁]
  have hexit₀ : (c₀.run []).exit = 0 := by simp [Finished.run, result, hc₀]
  have hexit : c.run.exit = 0 := by simp [Comparison.run, Finished.run, result, c, hc₁]
  have hmain₀ : (board false).main .ascending boardEnv (fun _ => none) (boardArgs none) ⟨0, 0, 0⟩ =
      some (c₀.run []) := c₀.main_eq rfl
  obtain ⟨d₀, d, _, _, hpos, _, hall⟩ :=
    bitExact_agrees hmain₀ hexit₀ rfl c.main_eq hexit rfl rfl hbit
  exact ⟨_, d₀, d, hpos, hall⟩

end RocketNpu.Bench
