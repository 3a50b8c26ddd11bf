import Mathlib.Data.List.Basic
import Mathlib.Data.List.Count

namespace RocketNpu.Refcount

variable {H : Type*}

/-- A reference count, with the holders of the references beside it. -/
structure Ref (H : Type*) where
  count : ℕ
  holders : List H
deriving DecidableEq, Repr

namespace Ref

def init (h : H) : Ref H := ⟨1, [h]⟩

def get (h : H) (r : Ref H) : Ref H := ⟨r.count + 1, h :: r.holders⟩

/-- `n` references at once, for one holder. -/
def getMany (h : H) (n : ℕ) (r : Ref H) : Ref H :=
  ⟨r.count + n, List.replicate n h ++ r.holders⟩

/-- The count drops by one, whoever asks for it. -/
def put [DecidableEq H] (h : H) (r : Ref H) : Ref H := ⟨r.count - 1, r.holders.erase h⟩

/-- Every reference counted has a holder, and the other way round. -/
def Sound (r : Ref H) : Prop := r.count = r.holders.length

theorem Sound.init (h : H) : (Ref.init h).Sound := rfl

theorem Sound.get {r : Ref H} (hr : r.Sound) (h : H) : (r.get h).Sound :=
  congrArg (· + 1) hr

theorem Sound.getMany {r : Ref H} (hr : r.Sound) (h : H) (n : ℕ) : (r.getMany h n).Sound := by
  unfold Sound at hr ⊢
  simp only [Ref.getMany, List.length_append, List.length_replicate, hr, Nat.add_comm]

theorem Sound.put [DecidableEq H] {r : Ref H} (hr : r.Sound) {h : H} (hm : h ∈ r.holders) :
    (r.put h).Sound := by
  unfold Sound at hr ⊢
  simp only [Ref.put, List.length_erase_of_mem hm, hr]

theorem Sound.count_eq_zero {r : Ref H} (hr : r.Sound) : r.count = 0 ↔ r.holders = [] := by
  rw [hr, List.length_eq_zero_iff]

theorem Sound.pos_of_mem {r : Ref H} (hr : r.Sound) {h : H} (hm : h ∈ r.holders) :
    0 < r.count := by
  rw [hr]
  exact List.length_pos_of_mem hm

/-- A count is the number of those who hold the object, when nobody holds it twice. -/
theorem Sound.count_eq {r : Ref H} (hr : r.Sound) (hn : r.holders.Nodup) {l : List H}
    (hl : l.Nodup) (hm : ∀ h, h ∈ r.holders ↔ h ∈ l) : r.count = l.length := by
  rw [hr]
  exact ((List.perm_ext_iff_of_nodup hn hl).mpr hm).length_eq

/-- The put of a holder is the last one exactly when it leaves no holder. -/
theorem Sound.put_last_iff [DecidableEq H] {r : Ref H} (hr : r.Sound) {h : H}
    (hm : h ∈ r.holders) : r.count = 1 ↔ (r.put h).holders = [] := by
  have hpos := hr.pos_of_mem hm
  rw [← (hr.put hm).count_eq_zero]
  simp only [Ref.put]
  omega

end Ref

end RocketNpu.Refcount
