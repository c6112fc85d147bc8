import Mathlib.Tactic.Linarith
import Mathlib.Tactic.Ring

/-!
# Division by a rounded reciprocal

A division by a fixed number can be done as a multiplication by its reciprocal, kept with
a limited number of digits. The reciprocal rounded up gives exact quotients of multiples,
and quotients of the others close enough to be rounded to the nearest.
-/

namespace Ns3.Semantics.Reciprocal

open Nat

/-- The reciprocal of a divisor in units of one over the scale, rounded up. -/
def reciprocal (scale divisor : Nat) : Nat :=
  (scale + (divisor - 1)) / divisor

/-- The quotient rounded to the nearest, halves up. -/
def nearest (value divisor : Nat) : Nat :=
  (2 * value + divisor) / (2 * divisor)

variable {divisor : Nat}

/-- The reciprocal exceeds the true one by less than one unit. -/
theorem exists_excess (scale : Nat) (pos : 0 < divisor) :
    ∃ excess < divisor, divisor * reciprocal scale divisor = scale + excess := by
  have split := div_add_mod (scale + (divisor - 1)) divisor
  have small := mod_lt (scale + (divisor - 1)) pos
  refine ⟨divisor - 1 - (scale + (divisor - 1)) % divisor, by omega, ?_⟩
  rw [reciprocal]
  omega

/-- Rounding up adds one unit unless the division is exact. -/
theorem reciprocal_eq {scale : Nat} (pos : 0 < divisor) : reciprocal scale divisor =
    if divisor * (scale / divisor) = scale then scale / divisor else scale / divisor + 1 := by
  have split := Nat.div_add_mod scale divisor
  have small := Nat.mod_lt scale pos
  have spread : scale + (divisor - 1) = divisor * (scale / divisor) + (scale % divisor + (divisor - 1)) := by omega
  rw [reciprocal, spread, Nat.mul_add_div pos]
  by_cases exact : divisor * (scale / divisor) = scale
  · have carry : (scale % divisor + (divisor - 1)) / divisor = 0 := Nat.div_eq_of_lt (by omega)
    rw [if_pos exact, carry, Nat.add_zero]
  · have carry : (scale % divisor + (divisor - 1)) / divisor = 1 :=
      Nat.div_eq_of_lt_le (by omega) (by omega)
    rw [if_neg exact, carry]

theorem nearest_spec (value : Nat) (pos : 0 < divisor) : 2 * divisor * nearest value divisor ≤ 2 * value + divisor ∧
    2 * value + divisor < 2 * divisor * (nearest value divisor + 1) := by
  have split := div_add_mod (2 * value + divisor) (2 * divisor)
  have small := mod_lt (2 * value + divisor) (mul_pos two_pos pos)
  rw [nearest, mul_add, mul_one]
  omega

theorem nearest_mul_right (value divisor : Nat) {common : Nat} (pos : 0 < common) :
    nearest (value * common) (divisor * common) = nearest value divisor := by
  rw [nearest, nearest, ← Nat.mul_assoc, ← Nat.mul_assoc, ← Nat.add_mul, Nat.mul_div_mul_right _ _ pos]

theorem nearest_one (value : Nat) : nearest value 1 = value := by
  rw [nearest]
  omega

theorem nearest_le (value : Nat) (pos : 0 < divisor) : nearest value divisor ≤ value := by
  obtain ⟨lower, -⟩ := nearest_spec value pos
  refine Nat.le_of_not_lt fun more => ?_
  have gap := Nat.mul_le_mul_left (2 * divisor) (Nat.succ_le_of_lt more)
  have scaled := Nat.mul_le_mul_right value (Nat.succ_le_of_lt pos)
  linarith

/-- The quotient of a multiple is exact. -/
theorem mul_reciprocal_of_multiple (precision : Nat) {value range : Nat} (pos : 0 < divisor)
    (fits : value * divisor ≤ range) (nonempty : 0 < range) :
    value * divisor * reciprocal (precision * range) divisor / range = value * precision := by
  obtain ⟨excess, small, product⟩ := exists_excess (precision * range) pos
  have spread : value * divisor * reciprocal (precision * range) divisor =
      value * precision * range + value * excess := by
    rw [Nat.mul_assoc, product]
    ring
  have remainder : value * excess < range := by
    rcases Nat.eq_zero_or_pos value with rfl | some
    · rwa [Nat.zero_mul]
    · exact Nat.lt_of_lt_of_le (Nat.mul_lt_mul_of_pos_left small some) fits
  rw [spread, Nat.mul_comm (value * precision) range, Nat.mul_add_div nonempty,
    Nat.div_eq_of_lt remainder, Nat.add_zero]

/-- Rounding the product rounds the quotient. -/
theorem round_mul_reciprocal (half range : Nat) {value : Nat} (pos : 0 < divisor)
    (fits : value ≤ half) (divisorFits : divisor ≤ range) (some : 0 < half) :
    (value * reciprocal (2 * half * range) divisor / range + half) / (2 * half) = nearest value divisor := by
  obtain ⟨excess, small, product⟩ := exists_excess (2 * half * range) pos
  obtain ⟨lower, upper⟩ := nearest_spec value pos
  have nonempty : 0 < range := Nat.lt_of_lt_of_le pos divisorFits
  generalize nearest value divisor = rounded at lower upper ⊢
  generalize reciprocal (2 * half * range) divisor = inverse at product ⊢
  have below := Nat.mul_div_le (value * inverse) range
  have above := Nat.lt_mul_div_succ (value * inverse) nonempty
  generalize value * inverse / range = quotient at below above ⊢
  have scaled : divisor * (value * inverse) = 2 * half * range * value + value * excess := by
    rw [Nat.mul_left_comm, product]
    ring
  refine Nat.div_eq_of_lt_le ?_ ?_
  · refine Nat.le_of_not_lt fun less => ?_
    have gap := Nat.mul_le_mul_left divisor (Nat.succ_le_of_lt less)
    have exceeded := Nat.mul_lt_mul_of_pos_left above pos
    have reached : range * (divisor * (quotient + 1)) ≤ range * (2 * half * value) :=
      Nat.mul_le_mul_left range (by linarith [Nat.mul_le_mul_left half lower])
    linarith [Nat.zero_le (value * excess)]
  · refine Nat.lt_of_not_le fun more => ?_
    have gap := Nat.mul_le_mul_left divisor more
    have reached : range * (2 * half * value + half) ≤ range * (divisor * quotient) :=
      Nat.mul_le_mul_left range (by linarith [Nat.mul_le_mul_left half (Nat.succ_le_of_lt upper)])
    have tiny : value * excess < half * range :=
      Nat.lt_of_le_of_lt (Nat.mul_le_mul_right excess fits)
        (Nat.mul_lt_mul_of_pos_left (Nat.lt_of_lt_of_le small divisorFits) some)
    linarith [Nat.mul_le_mul_left divisor below]

end Ns3.Semantics.Reciprocal
