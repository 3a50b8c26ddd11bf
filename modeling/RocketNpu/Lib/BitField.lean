import Mathlib.Algebra.Order.Ring.Nat

namespace RocketNpu.BitFields

/-- A field of a word of `w` bits. -/
structure BitField (w : ℕ) where
  shift : ℕ
  width : ℕ
  fits : shift + width ≤ w

variable {w : ℕ} (f : BitField w)

namespace BitField

def mask : BitVec w := BitVec.ofNat w (2 ^ f.width - 1) <<< f.shift

/-- A value put into its place; what does not fit is cut off. -/
def encode (value : BitVec w) : BitVec w := (value <<< f.shift) &&& f.mask

def decode (word : BitVec w) : BitVec w := (word &&& f.mask) >>> f.shift

theorem mask_toNat : f.mask.toNat = (2 ^ f.width - 1) <<< f.shift := by
  have hfits : (2 ^ f.width - 1) <<< f.shift < 2 ^ w := by
    rw [Nat.shiftLeft_eq]
    calc (2 ^ f.width - 1) * 2 ^ f.shift
        < 2 ^ f.width * 2 ^ f.shift :=
          Nat.mul_lt_mul_of_pos_right (Nat.sub_lt (Nat.two_pow_pos _) Nat.one_pos)
            (Nat.two_pow_pos _)
      _ = 2 ^ (f.shift + f.width) := by rw [Nat.pow_add, Nat.mul_comm]
      _ ≤ 2 ^ w := Nat.pow_le_pow_right (by omega) f.fits
  have hlow : 2 ^ f.width - 1 < 2 ^ w := by
    have hle : 2 ^ f.width ≤ 2 ^ w := Nat.pow_le_pow_right (by omega) (by have := f.fits; omega)
    have hpos := Nat.two_pow_pos f.width
    omega
  rw [mask, BitVec.toNat_shiftLeft, BitVec.toNat_ofNat, Nat.mod_eq_of_lt hlow,
    Nat.mod_eq_of_lt hfits]

/-- A field holds the bits of the word from its shift on. -/
theorem decode_toNat (word : BitVec w) :
    (f.decode word).toNat = word.toNat / 2 ^ f.shift % 2 ^ f.width := by
  rw [decode, BitVec.toNat_ushiftRight, BitVec.toNat_and, mask_toNat,
    Nat.shiftRight_and_distrib, Nat.shiftLeft_shiftRight, Nat.and_two_pow_sub_one_eq_mod,
    Nat.shiftRight_eq_div_pow]

/-- And gives a value back as far as it fits. -/
theorem decode_encode_toNat (value : BitVec w) :
    (f.decode (f.encode value)).toNat = value.toNat % 2 ^ f.width := by
  have hmask : f.encode value &&& f.mask = f.encode value := by
    rw [encode, BitVec.and_assoc, BitVec.and_self]
  rw [decode, hmask, encode, BitVec.toNat_ushiftRight, BitVec.toNat_and, mask_toNat,
    Nat.shiftRight_and_distrib, Nat.shiftLeft_shiftRight, Nat.and_two_pow_sub_one_eq_mod,
    BitVec.toNat_shiftLeft, Nat.shiftRight_eq_div_pow, Nat.shiftLeft_eq]
  have hpow : 2 ^ w = 2 ^ f.shift * 2 ^ (w - f.shift) := by
    rw [← Nat.pow_add, Nat.add_sub_cancel' (by have := f.fits; omega)]
  rw [hpow, Nat.mul_comm value.toNat, Nat.mul_mod_mul_left,
    Nat.mul_div_cancel_left _ (Nat.two_pow_pos _)]
  exact Nat.mod_mod_of_dvd _ (Nat.pow_dvd_pow 2 (by have := f.fits; omega))

end BitField

end RocketNpu.BitFields
