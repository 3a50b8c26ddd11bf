import RocketNpu.Drm.Address
import RocketNpu.Drm.Reach

namespace RocketNpu.Drm
open Runs Refcount Calls Call

/-- `domain->geometry`; both ends belong to the aperture. -/
structure Geometry where
  apertureStart : BitVec 64
  apertureEnd : BitVec 64

/-- The length `rocket_open` gives to `drm_mm_init`. -/
def Geometry.mmSize (g : Geometry) : BitVec 64 := g.apertureEnd - g.apertureStart + 1

structure Geometry.Aligned (g : Geometry) : Prop where
  ordered : g.apertureStart.toNat ≤ g.apertureEnd.toNat
  first : g.apertureStart.toNat % pageSize = 0
  last : (g.apertureEnd.toNat + 1) % pageSize = 0

/-- A file's address space over a run. -/
structure Room where
  s : State
  /-- For each BO whose `rocket_ioctl_create_bo` returned 0, the `dma_address` it reported and
  the page-rounded length. -/
  granted : ℕ → Option (ℕ × ℕ)

/-- What moves one file's address space: an ioctl, and references that are taken and put. -/
inductive RoomOp where
  | createBo (env : CreateEnv) (size : BitVec 32)
  | get (w : BoHolder) (b : ℕ)
  | put (w : BoHolder) (b : ℕ)

def RoomOp.run (f : ℕ) : RoomOp → Room → Room
  | .createBo env size, x =>
    match rocketIoctlCreateBo env f size x.s with
    | (.ok reply, s) => ⟨s, Function.update x.granted x.s.nextBo
        (some (reply.dmaAddress, pageAlign size.toNat))⟩
    | (_, s) => ⟨s, x.granted⟩
  | .get w b, x => { x with s := x.s.setBo b fun bo => { bo with kref := bo.kref.get w } }
  | .put w b, x => { x with s := (drmGemObjectPut w b x.s).2 }

/-- What `drm_mm`, the IOMMU and GEM promise: a node is page-aligned and in the range that the
`drm_mm` was made for, nothing is mapped twice, and references come from those that are held. -/
def RoomOp.Admissible (g : Geometry) (f : ℕ) : RoomOp → Room → Prop
  | .createBo env size, x =>
    (∀ start, env.insert = .ok start → start % pageSize = 0 ∧ g.apertureStart.toNat ≤ start ∧
      start + size.toNat ≤ g.apertureStart.toNat + g.mmSize.toNat) ∧
    (env.map = none → ∀ p < (env.address + pageAlign size.toNat) / pageSize,
      env.address / pageSize ≤ p → (x.s.domains f).mapped p = false)
  | .get _ b, x => 0 < (x.s.bos b).kref.count
  | .put _ b, x => 0 < (x.s.bos b).kref.count

def RoomStep (g : Geometry) (f : ℕ) (x : Room) (op : RoomOp) (y : Room) : Prop :=
  op.Admissible g f x ∧ y = op.run f x

/-- The file was just opened. -/
def RoomStart (f : ℕ) (x : Room) : Prop :=
  ∃ abi s, Reaches abi s ∧ f = s.nextFile ∧ x = ⟨s.newFile, fun _ => none⟩

/-- A BO that `rocket_ioctl_create_bo` returned 0 for and that was not freed since. -/
def Room.Live (x : Room) (b a len : ℕ) : Prop :=
  x.granted b = some (a, len) ∧ 0 < (x.s.bos b).kref.count

/-- What is wanted of the range that was mapped for a BO. -/
structure Placed (g : Geometry) (f : ℕ) (x : Room) (b a len : ℕ) : Prop where
  node : b ∈ (x.s.files f).nodes
  inside : g.apertureStart.toNat ≤ a ∧ a + len ≤ g.apertureEnd.toNat + 1
  disjoint : ∀ b' a' len', x.Live b' a' len' → b' ≠ b → ∀ y, ¬ (InBytes a len y ∧ InBytes a' len' y)
  /-- `rocket_gem_bo_free` takes down the pages of the range, and no others. -/
  unmapped : ∀ p, ((x.s.domains f).mapped p = true ∧
    ((rocketGemBoFree b x.s).2.domains f).mapped p = false) ↔ InPages a len p

def Addressed (g : Geometry) (f : ℕ) (x : Room) : Prop :=
  ∀ b a len, x.Live b a len → Placed g f x b a len

/-- Unmapping `len` bytes at `start` leaves the live BOs mapped. -/
def Room.Spares (f : ℕ) (x : Room) (start len : ℕ) : Prop :=
  ∀ b a len', x.Live b a len' → ∀ p, InPages a len' p →
    ((x.s.domains f).unmap start len).mapped p = true

/-- No call returns 0 without a node, and the free of a BO that a failed call left behind
unmaps no page of a live one. -/
def Sparing (f : ℕ) (x : Room) : RoomOp → Prop
  | .createBo env size => (∀ k, env.ending size = .done k → env.insert.isOk) ∧
      ((∃ e, env.ending size = .handle e) → x.Spares f 0 size.toNat)
  | .get _ _ => True
  | .put _ b => (x.s.bos b).kref.count = 1 → (x.s.bos b).file = f → x.granted b = none →
      x.Spares f (x.s.bos b).start (x.s.bos b).size

variable {g : Geometry} {f b a len : ℕ} {x : Room} {env : CreateEnv} {size : BitVec 32}

/-- What a live BO has. -/
structure Owns (g : Geometry) (f : ℕ) (s : State) (b a len : ℕ) : Prop where
  file : (s.bos b).file = f
  start : (s.bos b).start = a
  size : (s.bos b).size = len
  node : b ∈ (s.files f).nodes
  aligned : a % pageSize = 0 ∧ len % pageSize = 0
  inside : g.apertureStart.toNat ≤ a ∧ a + len ≤ g.apertureEnd.toNat + 1
  mapped : ∀ p, InPages a len p → (s.domains f).mapped p = true

structure RoomInv (g : Geometry) (f : ℕ) (x : Room) : Prop where
  unborn : ∀ b, x.s.nextBo ≤ b → x.granted b = none
  nodes : ∀ b ∈ (x.s.files f).nodes, b < x.s.nextBo
  domain : ∀ b, 0 < (x.s.bos b).kref.count → (x.s.bos b).domain = some (x.s.bos b).file
  owns : ∀ b a len, x.Live b a len → Owns g f x.s b a len
  disjoint : ∀ b a len b' a' len', x.Live b a len → x.Live b' a' len' → b' ≠ b →
    ∀ p, InPages a len p → ¬ InPages a' len' p

/-- The range of the `drm_mm` is the aperture, but for one that wraps around and is empty. -/
theorem Geometry.Aligned.mmSize_le (h : g.Aligned) :
    g.apertureStart.toNat + g.mmSize.toNat ≤ g.apertureEnd.toNat + 1 := by
  have hle := h.ordered
  unfold mmSize
  rw [BitVec.toNat_add, BitVec.toNat_sub]
  simp
  omega

/-- The grants when a call has come to its end. -/
def Room.grantedBy (env : CreateEnv) (size : BitVec 32) (x : Room) :
    CreateEnding → ℕ → Option (ℕ × ℕ)
  | .done _ => Function.update x.granted x.s.nextBo (some (env.address, pageAlign size.toNat))
  | _ => x.granted

theorem run_createBo (env : CreateEnv) (f : ℕ) (size : BitVec 32) (x : Room) :
    (RoomOp.createBo env size).run f x =
      ⟨x.s.afterCreate env f size (env.ending size), x.grantedBy env size (env.ending size)⟩ := by
  simp only [RoomOp.run, rocketIoctlCreateBo_eq, State.boMapped_new]
  cases env.ending size <;> rfl

theorem Room.grantedBy_ne {b : ℕ} (h : b ≠ x.s.nextBo) (c : CreateEnding) :
    x.grantedBy env size c b = x.granted b := by
  cases c with
  | done k => exact Function.update_of_ne h _ _
  | _ => rfl

theorem Room.grantedBy_new {c : CreateEnding} {v : ℕ × ℕ} (h : x.granted x.s.nextBo = none)
    (hv : x.grantedBy env size c x.s.nextBo = some v) :
    (∃ k, c = .done k) ∧ v = (env.address, pageAlign size.toNat) := by
  cases c with
  | done k =>
    rw [Room.grantedBy, Function.update_self] at hv
    exact ⟨⟨k, rfl⟩, (Option.some.inj hv).symm⟩
  | _ => exact absurd (h.symm.trans hv) (by simp)

theorem RoomInv.run_put (h : RoomInv g f x) (w : BoHolder) (b : ℕ) :
    (RoomOp.put w b).run f x = ⟨x.s.boPut w b, x.granted⟩ := by
  have hput := drmGemObjectPut_live (w := w) fun h1 => h.domain b (by omega)
  rw [RoomOp.run, hput]

theorem RoomStart.inv (h : RoomStart f x) : RoomInv g f x := by
  obtain ⟨abi, s, hs, rfl, rfl⟩ := h
  have hnone (b a len : ℕ) : ¬ Room.Live ⟨s.newFile, fun _ => none⟩ b a len := by
    intro hl
    cases hl.1
  refine ⟨fun _ _ => rfl, ?_, hs.wf.live, ?_, ?_⟩
  · intro b hb
    simp at hb
  · intro b a len hl
    exact absurd hl (hnone b a len)
  · intro b a len b' a' len' hl
    exact absurd hl (hnone b a len)

theorem Owns.congr {s t : State} (h : Owns g f s b a len)
    (hfile : (t.bos b).file = (s.bos b).file) (hstart : (t.bos b).start = (s.bos b).start)
    (hsize : (t.bos b).size = (s.bos b).size)
    (hnode : b ∈ (s.files f).nodes → b ∈ (t.files f).nodes)
    (hm : ∀ p, InPages a len p → (s.domains f).mapped p = true → (t.domains f).mapped p = true) :
    Owns g f t b a len :=
  ⟨hfile.trans h.file, hstart.trans h.start, hsize.trans h.size, hnode h.node, h.aligned,
    h.inside, fun p hp => hm p hp (h.mapped p hp)⟩

theorem RoomInv.get (h : RoomInv g f x) (w : BoHolder) {b : ℕ}
    (hb : 0 < (x.s.bos b).kref.count) : RoomInv g f ((RoomOp.get w b).run f x) := by
  have hlive (c a len : ℕ) (hl : ((RoomOp.get w b).run f x).Live c a len) : x.Live c a len := by
    refine ⟨hl.1, ?_⟩
    by_cases hc : c = b
    · rwa [hc]
    · simpa [RoomOp.run, hc] using hl.2
  refine ⟨h.unborn, h.nodes, fun c hpos => ?_, fun c a len hl => ?_,
    fun c a len c' a' len' hl hl' => ?_⟩
  · by_cases hc : c = b
    · subst hc
      simpa [RoomOp.run] using h.domain c hb
    · simp only [RoomOp.run, State.setBo_bos, Function.update_of_ne hc] at hpos ⊢
      exact h.domain c hpos
  · apply (h.owns c a len (hlive c a len hl)).congr
    · by_cases hc : c = b <;> simp [RoomOp.run, hc]
    · by_cases hc : c = b <;> simp [RoomOp.run, hc]
    · by_cases hc : c = b <;> simp [RoomOp.run, hc]
    · exact id
    · exact fun _ _ hp => hp
  · exact h.disjoint c a len c' a' len' (hlive c a len hl) (hlive c' a' len' hl')

/-- What is live after a put was live before, and is not what was freed. -/
theorem Room.Live.of_put {w : BoHolder} {b c a len : ℕ}
    (hl : Room.Live ⟨x.s.boPut w b, x.granted⟩ c a len) :
    x.Live c a len ∧ ((x.s.bos b).kref.count = 1 → c ≠ b) := by
  obtain ⟨hgr, hpos⟩ := hl
  by_cases hc : c = b
  · subst hc
    rw [State.boPut_bo] at hpos
    change 0 < (x.s.bos c).kref.count - 1 at hpos
    exact ⟨⟨hgr, by omega⟩, by omega⟩
  · rw [State.boPut_ne hc] at hpos
    exact ⟨⟨hgr, hpos⟩, fun _ => hc⟩

/-- The free of a live BO unmaps pages of its own only, and that of another BO spares the live
ones. -/
theorem RoomInv.mapped_put (h : RoomInv g f x) {w : BoHolder} {b c a len p : ℕ}
    (hb : 0 < (x.s.bos b).kref.count) (hs : Sparing f x (.put w b)) (hl : x.Live c a len)
    (hcb : (x.s.bos b).kref.count = 1 → c ≠ b) (hp : InPages a len p) :
    ((x.s.boPut w b).domains f).mapped p = true := by
  rw [State.boPut_mapped]
  split_ifs with h1
  · obtain ⟨h1, rfl⟩ := h1
    cases hg : x.granted b with
    | none => exact hs h1 rfl hg c a len hl p hp
    | some grant =>
      have hlb : x.Live b grant.1 grant.2 := ⟨hg, hb⟩
      have hown := h.owns b _ _ hlb
      have hout := h.disjoint c a len b _ _ hl hlb (hcb h1).symm p hp
      rw [hown.start, hown.size, IommuDomain.unmap_outside hout]
      exact (h.owns c a len hl).mapped p hp
  · exact (h.owns c a len hl).mapped p hp

theorem RoomInv.owns_put (h : RoomInv g f x) {w : BoHolder} {b c a len : ℕ}
    (hb : 0 < (x.s.bos b).kref.count) (hs : Sparing f x (.put w b)) (hl : x.Live c a len)
    (hcb : (x.s.bos b).kref.count = 1 → c ≠ b) : Owns g f (x.s.boPut w b) c a len := by
  have hfields : ((x.s.boPut w b).bos c).start = (x.s.bos c).start ∧
      ((x.s.boPut w b).bos c).size = (x.s.bos c).size := by
    by_cases hc : c = b
    · subst hc
      rw [State.boPut_bo]
      exact ⟨rfl, rfl⟩
    · rw [State.boPut_ne hc]
      exact ⟨rfl, rfl⟩
  apply (h.owns c a len hl).congr (State.boPut_file c) hfields.1 hfields.2
  · intro hn
    rw [State.boPut_files]
    dsimp only
    split_ifs with h1
    · exact (List.mem_erase_of_ne (hcb h1.1)).mpr hn
    · exact hn
  · intro p hp _
    exact h.mapped_put hb hs hl hcb hp

theorem RoomInv.put (h : RoomInv g f x) {w : BoHolder} {b : ℕ}
    (hb : 0 < (x.s.bos b).kref.count) (hs : Sparing f x (.put w b)) :
    RoomInv g f ((RoomOp.put w b).run f x) := by
  rw [h.run_put]
  refine ⟨fun c hc => ?_, fun c hc => ?_, fun c hpos => ?_, fun c a len hl => ?_,
    fun c a len c' a' len' hl hl' => ?_⟩
  · exact h.unborn c (by simpa using hc)
  · rw [State.boPut_nextBo]
    apply h.nodes c
    rw [State.boPut_files] at hc
    dsimp only at hc
    split_ifs at hc
    · exact List.mem_of_mem_erase hc
    · exact hc
  · by_cases hc : c = b
    · subst hc
      dsimp only at hpos ⊢
      rw [State.boPut_bo] at hpos ⊢
      change 0 < (x.s.bos c).kref.count - 1 at hpos
      rw [if_neg (by omega)]
      exact h.domain c hb
    · dsimp only at hpos ⊢
      rw [State.boPut_ne hc] at hpos ⊢
      exact h.domain c hpos
  · exact h.owns_put hb hs hl.of_put.1 hl.of_put.2
  · exact h.disjoint c a len c' a' len' hl.of_put.1 hl'.of_put.1

/-- What is live after a call is what was live before, and the new BO if the call returned 0. -/
theorem RoomInv.live_createBo (h : RoomInv g f x) (env : CreateEnv) (size : BitVec 32)
    (b a len : ℕ) (hl : ((RoomOp.createBo env size).run f x).Live b a len) :
    b ≠ x.s.nextBo ∧ x.Live b a len ∨
      b = x.s.nextBo ∧ (∃ k, env.ending size = .done k) ∧ a = env.address ∧
        len = pageAlign size.toNat := by
  rw [run_createBo] at hl
  obtain ⟨hgr, hpos⟩ := hl
  by_cases hb : b = x.s.nextBo
  · subst hb
    obtain ⟨hk, hv⟩ := Room.grantedBy_new (h.unborn _ (Nat.le_refl _)) hgr
    exact .inr ⟨rfl, hk, congrArg Prod.fst hv, congrArg Prod.snd hv⟩
  · refine .inl ⟨hb, (Room.grantedBy_ne hb _).symm.trans hgr, ?_⟩
    rwa [State.afterCreate_ne hb] at hpos

theorem Owns.new (hg : g.Aligned) (hadm : (RoomOp.createBo env size).Admissible g f x) {k : ℕ}
    (hnode : env.insert.isOk) :
    Owns g f (x.s.afterCreate env f size (.done k)) x.s.nextBo env.address
      (pageAlign size.toNat) := by
  obtain ⟨hfile, hstart, hsize, -⟩ := State.afterCreate_done env f size k x.s
  have haddr : env.insert = .ok env.address := by
    unfold CreateEnv.address
    cases hins : env.insert with
    | ok start => rfl
    | error e => rw [hins] at hnode; cases hnode
  obtain ⟨hmod, hlo, hhi⟩ := hadm.1 _ haddr
  have hinside := Nat.le_trans hhi hg.mmSize_le
  refine ⟨hfile, hstart, hsize, ?_, ⟨hmod, pageAlign_mod _⟩, ⟨hlo, ?_⟩, fun p hp => ?_⟩
  · rw [State.afterCreate_done_nodes, if_pos hnode]
    exact List.mem_cons_self
  · exact pageAlign_le hmod hg.last hinside
  · exact (State.boMapped_mapped env f size k x.s p).mpr (.inr hp)

/-- The pages of the new BO were free, and those of the live ones are mapped. -/
theorem RoomInv.disjoint_new (h : RoomInv g f x)
    (hadm : (RoomOp.createBo env size).Admissible g f x) {k : ℕ} (hk : env.ending size = .done k)
    {b a len p : ℕ} (hl : x.Live b a len) (hp : InPages a len p) :
    ¬ InPages env.address (pageAlign size.toNat) p := by
  rintro ⟨hlo, hhi⟩
  have hfree := hadm.2 (CreateEnv.map_of_done hk) p hhi hlo
  rw [(h.owns b a len hl).mapped p hp] at hfree
  cases hfree

/-- A call numbers a new object, or leaves everything as it is. -/
theorem afterCreate_grows (env : CreateEnv) (f : ℕ) (size : BitVec 32) (s : State)
    (c : CreateEnding) : (∃ e, c = .shmem e) ∨
      (s.afterCreate env f size c).nextBo = s.nextBo + 1 := by
  by_cases hc : ∃ e, c = .shmem e
  · exact .inl hc
  · exact .inr (State.afterCreate_nextBo c (not_exists.mp hc))

/-- The live BOs keep what they have, whether the call works or not. -/
theorem RoomInv.owns_createBo (h : RoomInv g f x) (hs : Sparing f x (.createBo env size))
    {b : ℕ} (hne : b ≠ x.s.nextBo) (hl : x.Live b a len) :
    Owns g f (x.s.afterCreate env f size (env.ending size)) b a len := by
  have hbo : (x.s.afterCreate env f size (env.ending size)).bos b = x.s.bos b :=
    State.afterCreate_ne hne
  apply (h.owns b a len hl).congr
  · exact congrArg Bo.file hbo
  · exact congrArg Bo.start hbo
  · exact congrArg Bo.size hbo
  · exact (State.afterCreate_nodes hne).mpr
  · intro p hp hm
    exact State.afterCreate_mapped hm fun he => hs.2 he b a len hl p hp

/-- What is numbered after a call: no node and no grant is ahead of the counter. -/
theorem RoomInv.numbered (h : RoomInv g f x) (env : CreateEnv) (size : BitVec 32) (b : ℕ) :
    ((x.s.afterCreate env f size (env.ending size)).nextBo ≤ b →
      x.grantedBy env size (env.ending size) b = none) ∧
    (b ∈ ((x.s.afterCreate env f size (env.ending size)).files f).nodes →
      b < (x.s.afterCreate env f size (env.ending size)).nextBo) := by
  rcases afterCreate_grows env f size x.s (env.ending size) with ⟨e, he⟩ | hgrows
  · rw [he]
    exact ⟨h.unborn b, h.nodes b⟩
  · rw [hgrows]
    refine ⟨fun hb => ?_, fun hb => ?_⟩
    · rw [Room.grantedBy_ne (by omega)]
      exact h.unborn b (by omega)
    · by_cases hne : b = x.s.nextBo
      · omega
      · have hlt := h.nodes b ((State.afterCreate_nodes hne).mp hb)
        omega

theorem RoomInv.createBo (h : RoomInv g f x) (hg : g.Aligned)
    (hadm : (RoomOp.createBo env size).Admissible g f x) (hs : Sparing f x (.createBo env size)) :
    RoomInv g f ((RoomOp.createBo env size).run f x) := by
  have hlive (b a len : ℕ) := h.live_createBo env size b a len
  have hnumbered := h.numbered env size
  rw [run_createBo] at hlive ⊢
  refine ⟨fun b hb => (hnumbered b).1 hb, fun b hb => (hnumbered b).2 hb, fun b hpos => ?_,
    fun b a len hl => ?_, fun b a len b' a' len' hl hl' => ?_⟩
  · by_cases hb : b = x.s.nextBo
    · subst hb
      exact State.afterCreate_live (h.domain _) hpos
    · dsimp only at hpos ⊢
      rw [State.afterCreate_ne hb] at hpos ⊢
      exact h.domain b hpos
  · rcases hlive b a len hl with ⟨hne, hlx⟩ | ⟨rfl, ⟨k, hk⟩, rfl, rfl⟩
    · exact h.owns_createBo hs hne hlx
    · change Owns g f (x.s.afterCreate env f size (env.ending size)) _ _ _
      rw [hk]
      exact .new hg hadm (hs.1 k hk)
  · rcases hlive b a len hl with ⟨hne, hlx⟩ | ⟨rfl, ⟨k, hk⟩, rfl, rfl⟩
    · rcases hlive b' a' len' hl' with ⟨hne', hlx'⟩ | ⟨rfl, ⟨k, hk⟩, rfl, rfl⟩
      · exact h.disjoint b a len b' a' len' hlx hlx'
      · exact fun _ p hp => h.disjoint_new hadm hk hlx hp
    · rcases hlive b' a' len' hl' with ⟨hne', hlx'⟩ | ⟨rfl, _, rfl, rfl⟩
      · exact fun _ p hp hp' => h.disjoint_new hadm hk hlx' hp' hp
      · exact fun hne => absurd rfl hne

theorem RoomInv.step {y : Room} {op : RoomOp} (h : RoomInv g f x) (hg : g.Aligned)
    (hs : Sparing f x op) (hstep : RoomStep g f x op y) : RoomInv g f y := by
  obtain ⟨hadm, rfl⟩ := hstep
  cases op with
  | createBo env size => exact h.createBo hg hadm hs
  | get w b => exact h.get w hadm
  | put w b => exact h.put hadm hs

theorem RoomInv.placed (h : RoomInv g f x) (hl : x.Live b a len) : Placed g f x b a len := by
  have hown := h.owns b a len hl
  have hfree : ((rocketGemBoFree b x.s).2.domains f).mapped =
      ((x.s.domains f).unmap a len).mapped := by
    rw [rocketGemBoFree_live (h.domain b hl.2), ← hown.start, ← hown.size, ← hown.file]
    simp [State.boFreed]
  refine ⟨hown.node, hown.inside, fun b' a' len' hl' hne => ?_, fun p => ?_⟩
  · have hown' := h.owns b' a' len' hl'
    exact not_inBytes_of_pages hown.aligned.1 hown.aligned.2 hown'.aligned.1 hown'.aligned.2
      (h.disjoint b a len b' a' len' hl hl' hne)
  · rw [hfree]
    constructor
    · rintro ⟨hm, hm'⟩
      by_contra hp
      rw [IommuDomain.unmap_outside hp, hm] at hm'
      cases hm'
    · intro hp
      exact ⟨hown.mapped p hp,
        IommuDomain.unmap_inside hown.aligned.1 hown.aligned.2 hown.mapped hp⟩

theorem roomInv_of_reachable (hg : g.Aligned)
    (h : Reachable (RoomStart f) (restrict (RoomStep g f) (Sparing f)) x) : RoomInv g f x := by
  refine h.invariant ?_ ?_
  · intro x hx
    exact hx.inv
  · rintro x op y hx ⟨hstep, hs⟩
    exact hx.step hg hs hstep

/-- While no step goes wrong, every BO has its node, its place in the aperture and its own
pages, and its free takes down just these. -/
theorem addressed_of_sparing (hg : g.Aligned)
    (h : Reachable (RoomStart f) (restrict (RoomStep g f) (Sparing f)) x) : Addressed g f x := by
  intro b a len hl
  exact (roomInv_of_reachable hg h).placed hl

/-- The pages that the free of a live BO would take down are mapped. -/
theorem Addressed.mapped {y : Room} {p : ℕ} (h : Addressed g f y) (hl : y.Live b a len)
    (hp : InPages a len p) : (y.s.domains f).mapped p = true :=
  (((h b a len hl).unmapped p).mpr hp).1

/-- The node of a new BO can only be the one it was given. -/
theorem RoomInv.node_of_done (h : RoomInv g f x) {k : ℕ} (hk : env.ending size = .done k)
    (hy : Addressed g f ((RoomOp.createBo env size).run f x)) : env.insert.isOk := by
  rw [run_createBo, hk] at hy
  have hcount := (State.afterCreate_done env f size k x.s).2.2.2
  have hnew : Room.Live ⟨x.s.afterCreate env f size (.done k), x.grantedBy env size (.done k)⟩
      x.s.nextBo env.address (pageAlign size.toNat) := by
    refine ⟨Function.update_self .., ?_⟩
    rw [hcount]
    exact Nat.one_pos
  have hnode := (hy _ _ _ hnew).node
  rw [State.afterCreate_done_nodes] at hnode
  by_contra hins
  rw [if_neg hins] at hnode
  exact absurd (h.nodes _ hnode) (Nat.lt_irrefl _)

theorem RoomInv.spares_of_handle (h : RoomInv g f x) {e : Errno}
    (he : env.ending size = .handle e)
    (hy : Addressed g f ((RoomOp.createBo env size).run f x)) : x.Spares f 0 size.toNat := by
  intro b a len hl p hp
  rw [run_createBo, he] at hy
  have hne : b ≠ x.s.nextBo := by
    rintro rfl
    exact absurd (hl.1.symm.trans (h.unborn _ (Nat.le_refl _))) (by simp)
  have hly : Room.Live ⟨x.s.afterCreate env f size (.handle e), x.granted⟩ b a len := by
    refine ⟨hl.1, ?_⟩
    rw [State.afterCreate_ne hne]
    exact hl.2
  have hm := hy.mapped hly hp
  rwa [State.afterCreate_handle_mapped] at hm

theorem RoomInv.sparing_put (h : RoomInv g f x) {w : BoHolder} {b : ℕ}
    (hy : Addressed g f ((RoomOp.put w b).run f x)) : Sparing f x (.put w b) := by
  rw [h.run_put] at hy
  intro h1 hf hgr c a len hl p hp
  have hcb : c ≠ b := by
    rintro rfl
    exact absurd (hl.1.symm.trans hgr) (by simp)
  have hly : Room.Live ⟨x.s.boPut w b, x.granted⟩ c a len := by
    refine ⟨hl.1, ?_⟩
    rw [State.boPut_ne hcb]
    exact hl.2
  have hm := hy.mapped hly hp
  rwa [State.boPut_mapped, if_pos ⟨h1, hf.symm⟩] at hm

/-- The condition is what a step needs: one that breaks it leaves a BO without its node, or
without a page. -/
theorem addressed_step_iff {y : Room} {op : RoomOp} (hg : g.Aligned)
    (h : Reachable (RoomStart f) (restrict (RoomStep g f) (Sparing f)) x)
    (hstep : RoomStep g f x op y) : Addressed g f y ↔ Sparing f x op := by
  have hinv := roomInv_of_reachable hg h
  constructor
  · intro hy
    obtain ⟨hadm, rfl⟩ := hstep
    cases op with
    | createBo env size =>
      exact ⟨fun k hk => hinv.node_of_done hk hy, fun ⟨e, he⟩ => hinv.spares_of_handle he hy⟩
    | get w b => trivial
    | put w b => exact hinv.sparing_put hy
  · intro hs b a len hl
    exact (hinv.step hg hs hstep).placed hl

/-- Sixteen pages from 64 KiB on. -/
def Geometry.small : Geometry := ⟨0x10000, 0x1ffff⟩

theorem Geometry.small_aligned : Geometry.small.Aligned := ⟨by decide, by decide, by decide⟩

/-- A call that gets handle `k`, and a node if there is room; nothing else fails. -/
def CreateEnv.smooth (k : ℕ) (insert : Except Errno ℕ) : CreateEnv :=
  ⟨none, .ok k, none, insert, none, 0⟩

def Room.opened : Room := ⟨State.init.newFile, fun _ => none⟩

theorem Room.opened_start : RoomStart 0 Room.opened := ⟨⟨16, 40⟩, State.init, .start rfl, rfl, rfl⟩

theorem sparing_smooth (f : ℕ) (x : Room) (k start : ℕ) (size : BitVec 32) :
    Sparing f x (.createBo (.smooth k (.ok start)) size) := by
  refine ⟨fun _ _ => rfl, fun ⟨e, he⟩ => ?_⟩
  unfold CreateEnv.ending CreateEnv.smooth at he
  dsimp only at he
  split_ifs at he

theorem admissible_smooth {f : ℕ} {x : Room} {k start : ℕ} {size : BitVec 32}
    (h : start % pageSize = 0 ∧ 0x10000 ≤ start ∧ start + size.toNat ≤ 0x20000)
    (hfree : ∀ p < (start + pageAlign size.toNat) / pageSize,
      start / pageSize ≤ p → (x.s.domains f).mapped p = false) :
    (RoomOp.createBo (.smooth k (.ok start)) size).Admissible .small f x := by
  refine ⟨fun start' he => ?_, fun _ => hfree⟩
  cases he
  exact h

theorem admissible_put {f b : ℕ} {x : Room} {w : BoHolder} (h : 0 < (x.s.bos b).kref.count) :
    (RoomOp.put w b).Admissible g f x := h

theorem sparing_granted {f b : ℕ} {x : Room} {w : BoHolder} (h : x.granted b ≠ none) :
    Sparing f x (.put w b) :=
  fun _ _ hn => absurd hn h

/-- Two BOs are made, the first is freed, and a smaller one takes its place. -/
def Room.reused : Room :=
  RoomOp.run 0 (.createBo (.smooth 3 (.ok 0x10000)) 100)
    (RoomOp.run 0 (.put (.handle 1) 0)
      (RoomOp.run 0 (.createBo (.smooth 2 (.ok 0x11000)) 5000)
        (RoomOp.run 0 (.createBo (.smooth 1 (.ok 0x10000)) 4096) .opened)))

theorem addressed_reused : Room.reused.Live 1 0x11000 8192 ∧ Room.reused.Live 2 0x10000 4096 ∧
    Addressed .small 0 Room.reused := by
  have h0 : Reachable (RoomStart 0) (restrict (RoomStep .small 0) (Sparing 0)) Room.opened :=
    .start Room.opened_start
  have h1 := h0.step ⟨⟨admissible_smooth (by decide) (by decide), rfl⟩,
    sparing_smooth 0 Room.opened 1 0x10000 4096⟩
  have h2 := h1.step ⟨⟨admissible_smooth (by decide) (by decide), rfl⟩,
    sparing_smooth 0 _ 2 0x11000 5000⟩
  have h3 := h2.step (e := .put (.handle 1) 0)
    ⟨⟨admissible_put (by decide), rfl⟩, sparing_granted (by decide)⟩
  have h4 := h3.step ⟨⟨admissible_smooth (by decide) (by decide), rfl⟩,
    sparing_smooth 0 _ 3 0x10000 100⟩
  exact ⟨⟨by decide, by decide⟩, ⟨by decide, by decide⟩,
    addressed_of_sparing Geometry.small_aligned h4⟩

/-- The `drm_mm` has no room, and the BO is mapped at 0. -/
def Room.noRoom : Room :=
  RoomOp.run 0 (.createBo (.smooth 1 (.error (.other 28))) 4096) .opened

/-- A BO gets a handle and a node, and its mapping fails. -/
def RoomOp.mapFails : RoomOp :=
  .createBo { CreateEnv.smooth 1 (.ok 0x10000) with map := some .enomem } 4096

/-- A second BO gets the place of the one whose mapping failed, and then the handle of the
first is closed. -/
def Room.unmappedByOther : Room :=
  RoomOp.run 0 (.put (.handle 1) 0)
    (RoomOp.run 0 (.createBo (.smooth 2 (.ok 0x10000)) 4096) (RoomOp.run 0 .mapFails .opened))

theorem not_addressed :
    (Reachable (RoomStart 0) (RoomStep .small 0) Room.noRoom ∧ ¬ Addressed .small 0 Room.noRoom) ∧
      Reachable (RoomStart 0) (RoomStep .small 0) Room.unmappedByOther ∧
        ¬ Addressed .small 0 Room.unmappedByOther := by
  have h0 : Reachable (RoomStart 0) (RoomStep .small 0) Room.opened := .start Room.opened_start
  have hfull : (RoomOp.createBo (.smooth 1 (.error (.other 28))) 4096).Admissible .small 0
      .opened := by
    refine ⟨fun start he => ?_, fun _ => by decide⟩
    cases he
  have hfails : RoomOp.mapFails.Admissible .small 0 .opened := by
    refine ⟨fun start he => ?_, fun hm => by cases hm⟩
    cases he
    decide
  have h1 := h0.step ⟨hfails, rfl⟩
  have h2 := h1.step (e := .createBo (.smooth 2 (.ok 0x10000)) 4096)
    ⟨admissible_smooth (by decide) (by decide), rfl⟩
  have h3 := h2.step (e := .put (.handle 1) 0) ⟨admissible_put (by decide), rfl⟩
  refine ⟨⟨h0.step ⟨hfull, rfl⟩, fun h => ?_⟩, h3, fun h => ?_⟩
  · have hnode : 0 ∈ (Room.noRoom.s.files 0).nodes := (h 0 0 4096 ⟨by decide, by decide⟩).node
    exact absurd hnode (by decide)
  · have hlive : Room.unmappedByOther.Live 1 0x10000 4096 := ⟨by decide, by decide⟩
    have hm : (Room.unmappedByOther.s.domains 0).mapped 16 = true := h.mapped hlive (by decide)
    exact absurd hm (by decide)

end RocketNpu.Drm
