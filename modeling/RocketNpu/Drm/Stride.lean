import RocketNpu.Drm.Files
import RocketNpu.Drm.Prepare

namespace RocketNpu.Drm

/-- Where the `i`-th element of an array of user space lies, with the product in full. -/
def elementAddress (base : BitVec 64) (i : ℕ) (stride : BitVec 32) : BitVec 64 :=
  base + BitVec.ofNat 64 (i * stride.toNat)

/-- The address the code takes is the right one as long as the product is a `u32`. -/
theorem userElement_eq_iff (base : BitVec 64) {i : ℕ} (hi : i < 4294967296)
    (stride : BitVec 32) :
    userElement base i stride = elementAddress base i stride ↔
      i * stride.toNat < 4294967296 := by
  have hlt : i * stride.toNat < 18446744073709551616 := by
    have hs := stride.isLt
    calc i * stride.toNat ≤ 4294967295 * 4294967295 := Nat.mul_le_mul (by omega) (by omega)
      _ < 18446744073709551616 := by decide
  have hval : ((BitVec.ofNat 32 i * stride).setWidth 64).toNat =
      i * stride.toNat % 4294967296 := by
    rw [BitVec.toNat_setWidth, BitVec.toNat_mul, BitVec.toNat_ofNat, Nat.mod_mul_mod]
    omega
  unfold userElement elementAddress
  rw [BitVec.add_right_inj, ← BitVec.toNat_inj, hval, BitVec.toNat_ofNat]
  omega

/-- All of an array is read at its place exactly if the offset of the last element is. -/
theorem userElements_eq_iff (base : BitVec 64) (count stride : BitVec 32) :
    (∀ i < count.toNat, userElement base i stride = elementAddress base i stride) ↔
      (count.toNat - 1) * stride.toNat < 4294967296 := by
  have hcount := count.isLt
  constructor
  · intro h
    by_cases h0 : count.toNat = 0
    · simp [h0]
    · exact (userElement_eq_iff base (by omega) stride).mp (h (count.toNat - 1) (by omega))
  · intro h i hi
    apply (userElement_eq_iff base (by omega) stride).mpr
    calc i * stride.toNat ≤ (count.toNat - 1) * stride.toNat :=
          Nat.mul_le_mul_right _ (by omega)
      _ < 4294967296 := h

theorem mapM_congr_range {m : Type → Type} [Monad m] [LawfulMonad m] {α : Type}
    {f g : ℕ → m α} {n : ℕ} (h : ∀ i < n, f i = g i) :
    (List.range n).mapM f = (List.range n).mapM g := by
  have hmem : ∀ l : List ℕ, (∀ i ∈ l, f i = g i) → l.mapM f = l.mapM g := by
    intro l hl
    induction l with
    | nil => rfl
    | cons i is ih =>
      rw [List.mapM_cons, List.mapM_cons, hl i List.mem_cons_self,
        ih fun j hj => hl j (List.mem_cons_of_mem i hj)]
  exact hmem _ fun i hi => h i (List.mem_range.mp hi)

theorem mapM_some {α : Type} (x : α) (l : List ℕ) :
    l.mapM (fun _ => some x) = some (l.map fun _ => x) := by
  induction l with
  | nil => rfl
  | cons i is ih => simp [List.mapM_cons, ih]

theorem toOption_mapM {ε α : Type} (f : ℕ → Except ε α) (l : List ℕ) :
    (l.mapM f).toOption = l.mapM fun i => (f i).toOption := by
  induction l with
  | nil => rfl
  | cons i is ih =>
    rw [List.mapM_cons, List.mapM_cons, ← ih]
    cases f i with
    | error e => rfl
    | ok a => cases is.mapM f <;> rfl

/-- A loop that reads the right elements, whichever are readable, has the right addresses. -/
theorem eq_of_mapM_eq {α : Type} (x : α) {a b : ℕ → BitVec 64} {n : ℕ}
    (h : ∀ readable : ℕ → BitVec 64 → Bool,
      ((List.range n).mapM fun i => if readable i (a i) then some x else none) =
        (List.range n).mapM fun i => if readable i (b i) then some x else none) :
    ∀ i < n, a i = b i := by
  intro i hi
  by_contra hne
  -- only the element that is missed is not readable
  have hread := h fun j c => ¬ (j = i ∧ c = b i)
  have hleft : (fun j => if decide (¬ (j = i ∧ a j = b i)) then some x else none) =
      fun _ => some x := by
    funext j
    apply if_pos
    rw [decide_eq_true_iff]
    intro hj
    exact hne (by rw [← hj.1, hj.2, hj.1])
  rw [hleft, mapM_some] at hread
  have hmap := map_of_mapM_eq_some hread.symm
  have hnone : none ∈ (List.range n).map
      fun j => if decide (¬ (j = i ∧ b j = b i)) then some x else none :=
    List.mem_map.mpr ⟨i, List.mem_range.mpr hi, by simp⟩
  rw [hmap] at hnone
  simp at hnone

/-- The loop of `rocket_ioctl_submit` on the elements that were meant. -/
def copyJobsInFull (env : SubmitAllEnv) (args : SubmitArgs) : Option (List JobDesc) :=
  (List.range args.jobCount.toNat).mapM fun i =>
    env.job i (elementAddress args.jobs i args.jobStructSize)

/-- The loop of `rocket_copy_tasks` on the elements that were meant. -/
def copyTasksInFull (env : SubmitEnv) (desc : JobDesc) : Except Errno (List Task) :=
  (List.range desc.taskCount.toNat).mapM fun i =>
    copyTaskAt env i (elementAddress desc.tasks i desc.taskStructSize)

theorem copyJobs_eq_iff (args : SubmitArgs) :
    (∀ env, copyJobs env args = copyJobsInFull env args) ↔
      (args.jobCount.toNat - 1) * args.jobStructSize.toNat < 4294967296 := by
  rw [← userElements_eq_iff args.jobs]
  constructor
  · intro h
    exact eq_of_mapM_eq JobDesc.oneTask fun readable =>
      h ⟨true, fun i a => if readable i a then some .oneTask else none, fun _ => .smooth⟩
  · intro h env
    exact mapM_congr_range fun i hi => congrArg (env.job i) (h i hi)

/-- User memory in which some tasks can be read. -/
def SubmitEnv.partly (readable : ℕ → BitVec 64 → Bool) : SubmitEnv :=
  { SubmitEnv.smooth with task := fun i a => if readable i a then some ⟨0, 1⟩ else none }

theorem copyTaskAt_partly (readable : ℕ → BitVec 64 → Bool) (i : ℕ) (a : BitVec 64) :
    (copyTaskAt (.partly readable) i a).toOption = if readable i a then some ⟨0, 1⟩ else none := by
  unfold copyTaskAt SubmitEnv.partly
  dsimp only
  by_cases h : readable i a
  · simp only [h]
    rfl
  · simp only [h]
    rfl

theorem copyTasks_eq_iff (desc : JobDesc) :
    (∀ env, copyTasks env desc = copyTasksInFull env desc) ↔
      (desc.taskCount.toNat - 1) * desc.taskStructSize.toNat < 4294967296 := by
  rw [← userElements_eq_iff desc.tasks]
  constructor
  · intro h
    apply eq_of_mapM_eq (⟨0, 1⟩ : Task)
    intro readable
    have hr := congrArg Except.toOption (h (.partly readable))
    simpa only [copyTasks, copyTasksInFull, toOption_mapM, copyTask, copyTaskAt_partly] using hr
  · intro h env
    apply mapM_congr_range
    intro i hi
    rw [copyTask, h i hi]

/-- Each of the two loops reads every descriptor at its place, whatever user memory holds,
exactly if the offset of its last one is below 2^32. -/
theorem strided_reads_iff (args : SubmitArgs) (desc : JobDesc) :
    ((∀ env, copyJobs env args = copyJobsInFull env args) ↔
        (args.jobCount.toNat - 1) * args.jobStructSize.toNat < 4294967296) ∧
      ((∀ env, copyTasks env desc = copyTasksInFull env desc) ↔
        (desc.taskCount.toNat - 1) * desc.taskStructSize.toNat < 4294967296) :=
  ⟨copyJobs_eq_iff args, copyTasks_eq_iff desc⟩

/-- Three jobs, 2 GiB apart. -/
def spacedArgs : SubmitArgs := ⟨4096, 3, 0x80000000, 0⟩

/-- A job with one task at the address it is itself read from. -/
def jobAt (address : BitVec 64) : JobDesc := ⟨address, 0, 0, 1, 16, 0, 0⟩

def spacedEnv : SubmitAllEnv :=
  ⟨true, fun _ address => some (jobAt address), fun _ => .smooth⟩

/-- The call returns 0; the third job was never read, and the first was taken for it. -/
theorem not_strided_reads :
    (rocketIoctlSubmit ⟨16, 40⟩ spacedEnv 0 spacedArgs State.opened).1 = .ok ⟨⟩ ∧
      copyJobs spacedEnv spacedArgs =
        some [jobAt 0x1000, jobAt 0x80001000, jobAt 0x1000] ∧
      copyJobsInFull spacedEnv spacedArgs =
        some [jobAt 0x1000, jobAt 0x80001000, jobAt 0x100001000] := by
  refine ⟨by decide, by decide, by decide⟩

end RocketNpu.Drm
