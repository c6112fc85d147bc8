import Ns3.Core.Int64x64.Arithmetic

/-!
# Division by a precomputed inverse

`Invert` keeps the reciprocal of an integer rounded up to 128 digits, and `MulByInvert`
finishes the division. The excess of the reciprocal is too small to reach the next integer,
or the next tie.
-/

namespace Ns3.Core.Int64x64

open Ns3.Semantics Int64 Reciprocal

variable {n divisor : Nat} {x : Int64x64}

theorem ofWords_zero_toNat (fits : n < 2 ^ 63) : (ofWords (ofNat n) 0).v.toNat = n * 2 ^ 64 := by
  have value : (ofNat n).toInt = n := toInt_ofNat_of_lt fits
  rw [ofWords_toNat (by rw [value]; exact Int.natCast_nonneg n), value, Int.toNat_natCast]
  exact Nat.add_zero _

theorem ofWords_neg (fits : n < 2 ^ 63) : ofWords (-ofNat n) 0 = (ofWords (ofNat n) 0).neg := by
  have words (hi : Int64) : (ofWords hi 0).v = BitVec.ofInt 128 hi.toInt <<< 64 :=
    BitVec.or_zero
  have opposite : (-ofNat n).toInt = -(ofNat n).toInt := by
    rw [toInt_neg_ofNat_of_le (Nat.le_of_lt fits), toInt_ofNat_of_lt fits]
  have same : (ofWords (-ofNat n) 0).v = -(ofWords (ofNat n) 0).v := by
    rw [words, words, opposite, BitVec.ofInt_neg, BitVec.shiftLeft_neg]
  rw [neg, ← same]

theorem magnitude_neg (pos : 0 < x.v.toNat) (fits : x.v.toNat < 2 ^ 127) :
    x.neg.isNegative = true ∧ x.neg.magnitude = x.v := by
  have value : (-x.v).toNat = 2 ^ 128 - x.v.toNat := by
    rw [BitVec.toNat_neg]
    omega
  have sign : x.neg.isNegative = true := by
    rw [isNegative, neg, BitVec.msb_eq_decide, value]
    exact decide_eq_true (by omega)
  refine ⟨sign, ?_⟩
  rw [magnitude, sign, if_pos rfl, neg, BitVec.neg_neg]

/-- `MulByInvert` works on the magnitude and restores the sign. -/
theorem mulByInvert_neg (o : Int64x64) (pos : 0 < x.v.toNat)
    (fits : x.v.toNat < 2 ^ 127) : x.neg.mulByInvert o = (x.mulByInvert o).map neg := by
  obtain ⟨negative, magnitudeNeg⟩ := magnitude_neg pos fits
  obtain ⟨nonneg, magnitudePos⟩ := magnitude_of_nonneg fits
  rw [mulByInvert, mulByInvert, negative, nonneg, magnitudeNeg, magnitudePos, Option.map_map]
  rfl

theorem reciprocal_le (more : 1 < divisor) : reciprocal (2 ^ 128) divisor ≤ 2 ^ 127 := by
  apply Nat.le_of_lt_succ
  apply Nat.div_lt_of_lt_mul
  omega

/-- The integer part of a quotient by the rounded reciprocal. -/
theorem high_mul_reciprocal {value : Nat} (pos : 0 < divisor)
    (fits : value < 2 ^ 63) (divisorFits : divisor < 2 ^ 63) :
    value * reciprocal (2 ^ 128) divisor / 2 ^ 64 / 2 ^ 64 = value / divisor := by
  obtain ⟨excess, small, product⟩ := exists_excess (2 ^ 128) pos
  have spread : divisor * (value * reciprocal (2 ^ 128) divisor) = 2 ^ 128 * value + value * excess := by
    rw [Nat.mul_left_comm, product]
    ring
  -- The excess stays below one part in the divisor.
  have tiny : value * excess < 2 ^ 128 := by
    calc value * excess ≤ 2 ^ 63 * 2 ^ 63 :=
          Nat.mul_le_mul (Nat.le_of_lt fits) (Nat.le_of_lt (Nat.lt_trans small divisorFits))
      _ < 2 ^ 128 := by norm_num
  have scale : (2 : Nat) ^ 64 * 2 ^ 64 = 2 ^ 128 := by norm_num
  rw [Nat.div_div_eq_div_mul, scale]
  calc value * reciprocal (2 ^ 128) divisor / 2 ^ 128
      = divisor * (value * reciprocal (2 ^ 128) divisor) / (divisor * 2 ^ 128) :=
        (Nat.mul_div_mul_left _ _ pos).symm
    _ = (2 ^ 128 * value + value * excess) / 2 ^ 128 / divisor := by
      rw [spread, Nat.mul_comm divisor, Nat.div_div_eq_div_mul]
    _ = value / divisor := by
      rw [Nat.mul_add_div (by norm_num), Nat.div_eq_of_lt tiny, Nat.add_zero]

/-- Dividing an integer by an integer through the inverse: the quotient's integer part, its
exact value for a multiple, its nearest integer, and the same for the opposite integer. -/
theorem mulByInvert_invert (v : UInt64) (more : 1 < v.toNat) (fits : v.toNat < 2 ^ 63) :
    ∃ inverse, invert v = some inverse ∧ ∀ a < 2 ^ 63, ∃ result,
      (ofWords (Int64.ofNat a) 0).mulByInvert inverse = some result ∧
      result.getHigh.toInt = (a / v.toNat : Nat) ∧
      (v.toNat ∣ a -> result.v.toNat = a / v.toNat * 2 ^ 64) ∧
      result.round.toInt = Reciprocal.nearest a v.toNat ∧
      (0 < a -> (ofWords (-Int64.ofNat a) 0).mulByInvert inverse = some result.neg) := by
  have positive : 0 < v.toNat := Nat.lt_trans Nat.zero_lt_one more
  have small := reciprocal_le more
  refine ⟨_, invert_eq more fits, fun a aFits => ?_⟩
  have inverseToNat := toNat_ofNat_of_fits
    (n := Reciprocal.reciprocal (2 ^ 128) v.toNat) (by omega)
  have integer := ofWords_zero_toNat aFits
  have product := mulByInvert_eq
    (o := ⟨BitVec.ofNat 128 (Reciprocal.reciprocal (2 ^ 128) v.toNat)⟩) integer aFits
    (by rw [inverseToNat]; exact small)
  rw [inverseToNat] at product
  have high := high_mul_reciprocal positive aFits fits
  have nearest := Reciprocal.round_mul_reciprocal (2 ^ 63) (2 ^ 64) positive
    (Nat.le_of_lt aFits) (by omega) (by decide)
  have exact (quotient : Nat) (multiple : a = quotient * v.toNat) :
      a * Reciprocal.reciprocal (2 ^ 128) v.toNat / 2 ^ 64 = quotient * 2 ^ 64 := by
    have scale : 2 ^ 128 = 2 ^ 64 * 2 ^ 64 := Nat.pow_add 2 64 64
    rw [multiple, scale]
    apply Reciprocal.mul_reciprocal_of_multiple (2 ^ 64) positive
    · omega
    · decide
  have below : a * Reciprocal.reciprocal (2 ^ 128) v.toNat / 2 ^ 64 + 2 ^ 63 < 2 ^ 127 := by
    have half : a / v.toNat ≤ a / 2 := Nat.div_le_div_left more (by decide)
    rw [← high] at half
    omega
  have resultToNat := toNat_ofNat_of_fits
    (n := a * Reciprocal.reciprocal (2 ^ 128) v.toNat / 2 ^ 64) (by omega)
  refine ⟨_, product, ?_, ?_, ?_, fun nonzero => ?_⟩
  · rw [getHigh_of_nonneg (by rw [resultToNat]; omega), resultToNat, high]
  · rintro ⟨quotient, multiple⟩
    rw [resultToNat, exact quotient (by rw [multiple, Nat.mul_comm]), multiple,
      Nat.mul_div_cancel_left _ positive]
  · rw [round_of_nonneg (by rw [resultToNat]; exact below), resultToNat]
    exact congrArg Nat.cast nearest
  · rw [ofWords_neg aFits, mulByInvert_neg _ (by rw [integer]; omega) (by rw [integer]; omega),
      product]
    rfl

theorem mulByInvert_invert_three : 1 < (3 : UInt64).toNat ∧ (3 : UInt64).toNat < 2 ^ 63 ∧
    ∃ inverse, invert 3 = some inverse ∧ ∀ a < 2 ^ 63, ∃ result,
      (ofWords (Int64.ofNat a) 0).mulByInvert inverse = some result ∧
      result.getHigh.toInt = (a / 3 : Nat) ∧
      (3 ∣ a -> result.v.toNat = a / 3 * 2 ^ 64) ∧
      result.round.toInt = Reciprocal.nearest a 3 ∧
      (0 < a -> (ofWords (-Int64.ofNat a) 0).mulByInvert inverse = some result.neg) :=
  ⟨by decide, by decide, mulByInvert_invert 3 (by decide) (by decide)⟩

end Ns3.Core.Int64x64
