import RocketNpu.Drm.Gem

namespace RocketNpu.Drm

variable {start len start' len' p x : ℕ} {d : IommuDomain}

/-- The pages that `iommu_map` and `iommu_unmap` of `len` bytes at `start` go through. -/
def InPages (start len p : ℕ) : Prop := start / pageSize ≤ p ∧ p < (start + len) / pageSize

instance (start len p : ℕ) : Decidable (InPages start len p) :=
  inferInstanceAs (Decidable (_ ∧ _))

def InBytes (start len x : ℕ) : Prop := start ≤ x ∧ x < start + len

theorem pageAlign_mod (n : ℕ) : pageAlign n % pageSize = 0 := Nat.mul_mod_left _ _

/-- An aligned range holds whole pages. -/
theorem InBytes.page (h : InBytes start len x) (hs : start % pageSize = 0)
    (hl : len % pageSize = 0) : InPages start len (x / pageSize) := by
  unfold InBytes at h
  unfold InPages pageSize at *
  omega

/-- Aligned ranges without a common page have no byte in common. -/
theorem not_inBytes_of_pages (hs : start % pageSize = 0) (hl : len % pageSize = 0)
    (hs' : start' % pageSize = 0) (hl' : len' % pageSize = 0)
    (h : ∀ p, InPages start len p → ¬ InPages start' len' p) (x : ℕ) :
    ¬ (InBytes start len x ∧ InBytes start' len' x) := by
  rintro ⟨hx, hx'⟩
  exact h _ (hx.page hs hl) (hx'.page hs' hl')

/-- A range that fits between aligned bounds still does when its length is rounded up. -/
theorem pageAlign_le {lo hi n : ℕ} (hlo : lo % pageSize = 0) (hhi : hi % pageSize = 0)
    (h : lo + n ≤ hi) : lo + pageAlign n ≤ hi := by
  unfold pageAlign pageSize at *
  omega

namespace IommuDomain

theorem map_mapped (start len p : ℕ) (d : IommuDomain) :
    (d.map start len).mapped p = true ↔ d.mapped p = true ∨ InPages start len p := by
  simp [map, InPages]

theorem unmap_congr {d' : IommuDomain} (h : d'.mapped = d.mapped) :
    (d'.unmap start len).mapped = (d.unmap start len).mapped := by
  unfold unmap
  split_ifs
  · simp only [h]
  · exact h

theorem unmap_outside (h : ¬ InPages start len p) :
    (d.unmap start len).mapped p = d.mapped p := by
  unfold unmap
  split_ifs
  · have hout : (decide (start / pageSize ≤ p) &&
        decide (p < (start + len) / pageSize)) = false := by
      rw [Bool.and_eq_false_iff]
      unfold InPages at h
      simp only [decide_eq_false_iff_not]
      omega
    simp [hout]
  · rfl

/-- No hole stops the unmapping of a range that is mapped throughout. -/
theorem unmap_inside (hs : start % pageSize = 0) (hl : len % pageSize = 0)
    (hmapped : ∀ q, InPages start len q → d.mapped q = true) (h : InPages start len p) :
    (d.unmap start len).mapped p = false := by
  have hbefore : ((List.range (p - start / pageSize)).all
      fun k => d.mapped (start / pageSize + k)) = true := by
    rw [List.all_eq_true]
    intro k hk
    apply hmapped
    unfold InPages at h ⊢
    have hlt := List.mem_range.mp hk
    omega
  unfold InPages at h
  rw [unmap, if_pos ⟨hs, hl⟩]
  simp only [h, hbefore]
  simp

end IommuDomain

end RocketNpu.Drm
