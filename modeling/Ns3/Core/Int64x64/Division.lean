import Ns3.Core.Int64x64.Arithmetic

/-!
# Exact division

`Udiv` computes the fraction digits in rounds of as many digits as fit. Each round moves the
remainder up and the divisor down. `Exact.udiv` is the same code where a shift or a sum that
loses a set bit fails: it does not fail, and its quotient is exact.
-/

namespace Ns3.Core.Int64x64

open Option BitVec

namespace Exact

def shiftLeft (x : BitVec 128) (count : Nat) : Option (BitVec 128) :=
  if x.toNat * 2 ^ count < 2 ^ 128 then some (x <<< count) else none

def shiftRight (x : BitVec 128) (count : Nat) : Option (BitVec 128) :=
  if 2 ^ count ∣ x.toNat then some (x >>> count) else none

def add (x y : BitVec 128) : Option (BitVec 128) :=
  if x.toNat + y.toNat < 2 ^ 128 then some (x + y) else none

def skipZeros : Nat -> Nat -> BitVec 128 -> Option (Nat × BitVec 128)
  | 0, shift, den => some (shift, den)
  | more + 1, shift, den =>
    if den &&& 1#128 = 0#128 then
      (shiftRight den 1).bind fun den => skipZeros more (shift + 1) den
    else some (shift, den)

def skipLeading : Nat -> Nat -> BitVec 128 -> Option (Nat × BitVec 128)
  | 0, shift, rem => some (shift, rem)
  | more + 1, shift, rem =>
    if rem &&& maskHiBit = 0#128 then
      (shiftLeft rem 1).bind fun rem => skipLeading more (shift + 1) rem
    else some (shift, rem)

def castOff (rem : BitVec 128) : Nat -> Nat -> BitVec 128 -> Option (Nat × BitVec 128)
  | 0, shift, den => some (shift, den)
  | more + 1, shift, den =>
    if den &&& 1#128 = 0#128 ∨ rem < den then
      (shiftRight den 1).bind fun den => castOff rem more (shift + 1) den
    else some (shift, den)

def fractionDigits : Nat -> Nat -> Nat -> BitVec 128 -> BitVec 128 -> BitVec 128 -> Option (Nat × BitVec 128)
  | 0, digis, _, rem, _, result =>
    if digis < 64 ∧ rem ≠ 0#128 then none else some (digis, result)
  | fuel + 1, digis, shift, rem, den, result =>
    if digis < 64 ∧ rem ≠ 0#128 then
      (skipLeading (64 - (digis + shift)) shift rem).bind fun (shift, rem) =>
        (castOff rem (64 - (digis + shift)) shift den).bind fun (shift, den) =>
          if den = 0#128 then
            none
          else
            (shiftLeft result shift).bind fun result =>
              (add result (rem / den)).bind fun result =>
                fractionDigits fuel (digis + shift) 0 (rem % den) den result
    else some (digis, result)

/-- `Udiv`, or nothing if one of its shifts or sums loses a set bit. -/
def udiv (a b : BitVec 128) : Option (BitVec 128) :=
  if b = 0#128 then
    none
  else
    (skipZeros 64 0 b).bind fun (shift, den) =>
      (fractionDigits 129 0 shift (a % b) den (a / b)).bind fun (digis, result) =>
        if digis < 64 then shiftLeft result (64 - digis) else some result

end Exact

theorem shiftLeft_toNat {x : BitVec 128} {count : Nat} (fits : x.toNat * 2 ^ count < 2 ^ 128) :
    (x <<< count).toNat = x.toNat * 2 ^ count := by
  rw [toNat_shiftLeft, Nat.shiftLeft_eq, Nat.mod_eq_of_lt fits]

theorem Exact.skipZeros_eq (more shift : Nat) (den : BitVec 128) :
    Exact.skipZeros more shift den = some (Int64x64.skipZeros more shift den) := by
  induction more generalizing shift den with
  | zero => rfl
  | succ more ih =>
    rw [Exact.skipZeros, Int64x64.skipZeros]
    split
    · next even =>
        have whole : 2 ^ 1 ∣ den.toNat := Nat.dvd_of_mod_eq_zero ((even_iff den).mp even)
        rw [Exact.shiftRight, if_pos whole]
        exact ih _ _
    · rfl

theorem lt_of_maskHiBit {a : BitVec 128} (clear : a &&& maskHiBit = 0#128) : a.toNat < 2 ^ 127 := by
  have bit : a.msb = false := by
    rw [msb_eq_getLsbD_last]
    have same := congrArg (fun word : BitVec 128 => word.getLsbD 127) clear
    simpa [maskHiBit] using same
  exact toNat_lt_of_msb_false bit

/-- Skipping the leading zeros of the remainder stops at the digits that are needed, or at a
full word, and loses nothing. -/
theorem skipLeading_spec (more shift : Nat) (rem : BitVec 128) : ∃ skipped ≤ more,
    skipLeading more shift rem = (shift + skipped, rem <<< skipped) ∧
      Exact.skipLeading more shift rem = some (shift + skipped, rem <<< skipped) ∧
      rem.toNat * 2 ^ skipped < 2 ^ 128 ∧
      (skipped < more -> 2 ^ 127 ≤ rem.toNat * 2 ^ skipped) := by
  induction more generalizing shift rem with
  | zero =>
    refine ⟨0, Nat.le_refl 0, ?_, ?_, ?_, fun less => absurd less (Nat.lt_irrefl 0)⟩
    · simp [skipLeading]
    · simp [Exact.skipLeading]
    · simpa using rem.isLt
  | succ more ih =>
    rw [skipLeading, Exact.skipLeading]
    by_cases clear : rem &&& maskHiBit = 0#128
    · have low := lt_of_maskHiBit clear
      have room : rem.toNat * 2 ^ 1 < 2 ^ 128 := by omega
      have doubled := shiftLeft_toNat room
      obtain ⟨skipped, bounded, stops, exact, fits, full⟩ :=
        ih (shift + 1) (rem <<< 1)
      have together : (rem <<< 1).toNat * 2 ^ skipped = rem.toNat * 2 ^ (skipped + 1) := by
        rw [doubled, Nat.mul_assoc, ← Nat.pow_add, Nat.add_comm 1]
      rw [together] at fits full
      refine ⟨skipped + 1, Nat.succ_le_succ bounded, ?_, ?_, fits, fun less => full (Nat.lt_of_succ_lt_succ less)⟩
      · rw [if_pos clear, stops, ← shiftLeft_add, Nat.add_assoc, Nat.add_comm 1]
      · rw [if_pos clear, Exact.shiftLeft, if_pos room, bind_some, exact,
          ← shiftLeft_add, Nat.add_assoc, Nat.add_comm 1]
    · have high : 2 ^ 127 ≤ rem.toNat :=
        Nat.le_of_not_lt fun low => clear (maskHiBit_eq_zero low)
      refine ⟨0, Nat.zero_le _, ?_, ?_, ?_, fun _ => ?_⟩
      · rw [if_neg clear, shiftLeft_zero, Nat.add_zero]
      · rw [if_neg clear, shiftLeft_zero, Nat.add_zero]
      · simpa using rem.isLt
      · simpa using high

/-- Bits are cast off the divisor only while they are zero: the remainder is not below it. -/
theorem castOff_spec (rem : BitVec 128) (more shift : Nat) (den : BitVec 128)
    (above : 0 < more -> den ≤ rem) : ∃ cast ≤ more,
    castOff rem more shift den = (shift + cast, den >>> cast) ∧
      Exact.castOff rem more shift den = some (shift + cast, den >>> cast) ∧
      2 ^ cast ∣ den.toNat := by
  induction more generalizing shift den with
  | zero => exact ⟨0, Nat.le_refl 0, by simp [castOff], by simp [Exact.castOff], Nat.one_dvd _⟩
  | succ more ih =>
    rw [castOff, Exact.castOff]
    have notBelow : ¬ rem < den := BitVec.not_lt.mpr (above (Nat.succ_pos more))
    by_cases even : den &&& 1#128 = 0#128
    · have whole : 2 ^ 1 ∣ den.toNat := Nat.dvd_of_mod_eq_zero ((even_iff den).mp even)
      have halved : den.toNat = 2 * (den >>> 1).toNat := by
        rw [toNat_shiftRight]
        exact (Nat.mul_div_cancel' whole).symm
      have smaller : den >>> 1 ≤ den := by
        rw [BitVec.le_def]
        omega
      obtain ⟨cast, bounded, stops, exact, divides⟩ := ih (shift + 1) (den >>> 1)
        fun _ => BitVec.le_trans smaller (above (Nat.succ_pos more))
      refine ⟨cast + 1, Nat.succ_le_succ bounded, ?_, ?_, ?_⟩
      · rw [if_pos (.inl even), stops, ← BitVec.shiftRight_add, Nat.add_assoc, Nat.add_comm 1]
      · rw [if_pos (.inl even), Exact.shiftRight, if_pos whole, bind_some, exact,
          ← BitVec.shiftRight_add, Nat.add_assoc, Nat.add_comm 1]
      · rw [halved, Nat.pow_succ']
        exact Nat.mul_dvd_mul_left 2 divides
    · refine ⟨0, Nat.zero_le _, ?_, ?_, Nat.one_dvd _⟩
      · rw [if_neg (not_or.mpr ⟨even, notBelow⟩), BitVec.ushiftRight_zero, Nat.add_zero]
      · rw [if_neg (not_or.mpr ⟨even, notBelow⟩), BitVec.ushiftRight_zero, Nat.add_zero]

/-- The quotient a round starts from, with all the digits still to come. -/
def pending (digis shift rem den result : Nat) : Nat :=
  (result * (den * 2 ^ shift) + rem) * 2 ^ (64 - digis) / (den * 2 ^ shift)

/-- Without a remainder, or without digits to come, the quotient is what was computed. -/
theorem pending_done {digis shift rem den result : Nat}
    (below : rem < den * 2 ^ shift) (done : ¬ (digis < 64 ∧ rem ≠ 0)) :
    pending digis shift rem den result = result * 2 ^ (64 - digis) := by
  have pos : 0 < den * 2 ^ shift := Nat.lt_of_le_of_lt (Nat.zero_le rem) below
  rw [pending]
  rcases Nat.lt_or_ge digis 64 with more | all
  · have none : rem = 0 := Decidable.of_not_not fun some => done ⟨more, some⟩
    rw [none, Nat.add_zero, Nat.mul_right_comm, Nat.mul_div_cancel _ pos]
  · have last : 64 - digis = 0 := by omega
    rw [last, Nat.pow_zero, Nat.mul_one, Nat.mul_one, Nat.mul_comm result,
      Nat.mul_add_div pos, Nat.div_eq_of_lt below, Nat.add_zero]

/-- A round keeps the quotient: both sides of the division are scaled alike. -/
theorem pending_round {digis shift skipped cast : Nat} (rem den result : Nat)
    (bounded : digis + (shift + skipped + cast) ≤ 64) :
    pending (digis + (shift + skipped + cast)) 0 (rem * 2 ^ skipped % den) den
        (result * 2 ^ (shift + skipped + cast) + rem * 2 ^ skipped / den) =
      pending digis shift rem (den * 2 ^ cast) result := by
  have division := Nat.div_add_mod (rem * 2 ^ skipped) den
  have numerator : (result * 2 ^ (shift + skipped + cast) + rem * 2 ^ skipped / den) *
      (den * 2 ^ 0) + rem * 2 ^ skipped % den = (result * (den * 2 ^ cast * 2 ^ shift) + rem) * 2 ^ skipped := by
    calc (result * 2 ^ (shift + skipped + cast) + rem * 2 ^ skipped / den) * (den * 2 ^ 0) + rem * 2 ^ skipped % den
        = result * 2 ^ (shift + skipped + cast) * den +
            (den * (rem * 2 ^ skipped / den) + rem * 2 ^ skipped % den) := by ring
      _ = (result * (den * 2 ^ cast * 2 ^ shift) + rem) * 2 ^ skipped := by
        rw [division]
        ring
  have digits : 64 - digis = 64 - (digis + (shift + skipped + cast)) + skipped + (cast + shift) := by omega
  rw [pending, pending, numerator, digits]
  generalize 64 - (digis + (shift + skipped + cast)) = rest
  have scaled : (result * (den * 2 ^ cast * 2 ^ shift) + rem) * 2 ^ (rest + skipped + (cast + shift)) =
      (result * (den * 2 ^ cast * 2 ^ shift) + rem) * 2 ^ skipped * 2 ^ rest * 2 ^ (cast + shift) := by
    ring
  have denominator : den * 2 ^ cast * 2 ^ shift = den * 2 ^ 0 * 2 ^ (cast + shift) := by ring
  rw [scaled]
  generalize (result * (den * 2 ^ cast * 2 ^ shift) + rem) * 2 ^ skipped * 2 ^ rest = whole
  rw [denominator, Nat.mul_div_mul_right _ _ (Nat.two_pow_pos _)]

/-- What a round has computed is at most the quotient. -/
theorem le_pending (digis rem : Nat) {den : Nat} (result : Nat) (pos : 0 < den) :
    result ≤ pending digis 0 rem den result := by
  rw [pending, Nat.pow_zero, Nat.mul_one, Nat.le_div_iff_mul_le pos]
  exact Nat.le_trans (Nat.le_add_right _ rem) (Nat.le_mul_of_pos_right _ (Nat.two_pow_pos _))

/-- The rounds end, and give the quotient they started from without losing a bit. -/
theorem fractionDigits_spec (fuel digis shift : Nat) (rem den result : BitVec 128)
    (bounded : digis + shift ≤ 64) (enough : 64 ≤ digis + fuel) (denFits : den.toNat ≤ 2 ^ 127)
    (remFits : rem.toNat < 2 ^ 127) (below : rem.toNat < den.toNat * 2 ^ shift)
    (fits : pending digis shift rem.toNat den.toNat result.toNat < 2 ^ 128) :
    ∃ last quotient, fractionDigits fuel digis shift rem den result = some (last, quotient) ∧
      Exact.fractionDigits fuel digis shift rem den result = some (last, quotient) ∧
      quotient.toNat * 2 ^ (64 - last) =
        pending digis shift rem.toNat den.toNat result.toNat := by
  induction fuel generalizing digis shift rem den result with
  | zero =>
    have done : ¬ (digis < 64 ∧ rem ≠ 0#128) := by omega
    refine ⟨digis, result, ?_, ?_, (pending_done below (by omega)).symm⟩
    · rw [fractionDigits, if_neg done]
    · rw [Exact.fractionDigits, if_neg done]
  | succ fuel ih =>
    rw [fractionDigits, Exact.fractionDigits]
    by_cases continues : digis < 64 ∧ rem ≠ 0#128
    · obtain ⟨skipped, skippedFits, leading, leadingExact, room, full⟩ :=
        skipLeading_spec (64 - (digis + shift)) shift rem
      have moved := shiftLeft_toNat room
      obtain ⟨cast, castFits, trailing, trailingExact, divides⟩ :=
        castOff_spec (rem <<< skipped) (64 - (digis + (shift + skipped))) (shift + skipped) den
          fun more => by
            have := full (by omega)
            rw [le_def, moved]
            omega
      obtain ⟨odd, split⟩ := divides
      have divisor : (den >>> cast).toNat = odd := by
        rw [toNat_shiftRight, split, Nat.mul_div_cancel_left _ (Nat.two_pow_pos cast)]
      have pos : 0 < odd := by
        apply Nat.pos_of_ne_zero
        rintro rfl
        rw [split, Nat.mul_zero, Nat.zero_mul] at below
        exact absurd below (Nat.not_lt_zero _)
      have nonzero : den >>> cast ≠ 0#128 := by
        intro zero
        rw [zero] at divisor
        exact absurd divisor (Nat.ne_of_lt pos)
      -- The first digit of a round is there because the remainder has a zero in front.
      have progress : 0 < shift + skipped := by
        apply Nat.pos_of_ne_zero
        intro none
        have unmoved : skipped = 0 := by omega
        have := full (by omega)
        rw [unmoved, Nat.pow_zero] at this
        omega
      have digits : digis + (shift + skipped + cast) ≤ 64 := by omega
      have kept := pending_round rem.toNat odd result.toNat digits
      rw [Nat.mul_comm odd, ← split] at kept
      have computed := le_pending (digis + (shift + skipped + cast))
        (rem.toNat * 2 ^ skipped % odd)
        (result.toNat * 2 ^ (shift + skipped + cast) + rem.toNat * 2 ^ skipped / odd) pos
      rw [kept] at computed
      have sumFits := Nat.lt_of_le_of_lt computed fits
      have resultRoom := Nat.lt_of_le_of_lt (Nat.le_add_right _ _) sumFits
      have resultMoved := shiftLeft_toNat resultRoom
      have digitsToNat : (rem <<< skipped / den >>> cast).toNat = rem.toNat * 2 ^ skipped / odd := by
        rw [toNat_udiv, moved, divisor]
      have sum : (result <<< (shift + skipped + cast) + rem <<< skipped / den >>> cast).toNat =
          result.toNat * 2 ^ (shift + skipped + cast) + rem.toNat * 2 ^ skipped / odd := by
        rw [toNat_add, digitsToNat, resultMoved, Nat.mod_eq_of_lt sumFits]
      have remainder : (rem <<< skipped % den >>> cast).toNat =
          rem.toNat * 2 ^ skipped % odd := by
        rw [toNat_umod, moved, divisor]
      have oddFits : odd ≤ 2 ^ 127 := by
        have := Nat.le_mul_of_pos_left odd (Nat.two_pow_pos cast)
        omega
      have smaller := Nat.mod_lt (rem.toNat * 2 ^ skipped) pos
      obtain ⟨last, quotient, computes, exact, same⟩ := ih
        (digis + (shift + skipped + cast)) 0 (rem <<< skipped % den >>> cast) (den >>> cast)
        (result <<< (shift + skipped + cast) + rem <<< skipped / den >>> cast)
        (by omega) (by omega) (by rw [divisor]; exact oddFits) (by rw [remainder]; omega)
        (by rw [remainder, divisor, Nat.pow_zero, Nat.mul_one]; exact smaller)
        (by rw [remainder, divisor, sum, kept]; exact fits)
      refine ⟨last, quotient, ?_, ?_, ?_⟩
      · rw [if_pos continues, leading]
        dsimp only
        rw [trailing]
        dsimp only
        rw [if_neg nonzero, computes]
      · rw [if_pos continues, leadingExact, bind_some]
        dsimp only
        rw [trailingExact, bind_some]
        dsimp only
        rw [if_neg nonzero, Exact.shiftLeft, if_pos resultRoom, bind_some, Exact.add,
          if_pos (by rw [resultMoved, digitsToNat]; exact sumFits), bind_some, exact]
      · rw [same, remainder, divisor, sum, kept]
    · have done : ¬ (digis < 64 ∧ rem.toNat ≠ 0) := fun more =>
        continues ⟨more.1, fun zero => more.2 (by rw [zero]; rfl)⟩
      refine ⟨digis, result, ?_, ?_, (pending_done below done).symm⟩
      · rw [if_neg continues]
      · rw [if_neg continues]

theorem pending_start (a : Nat) {b skipped odd : Nat} (split : b = 2 ^ skipped * odd) :
    pending 0 skipped (a % b) odd (a / b) = a * 2 ^ 64 / b := by
  have denominator : odd * 2 ^ skipped = b := by rw [split, Nat.mul_comm]
  have numerator : (a / b * b + a % b) * 2 ^ 64 = a * 2 ^ 64 := by
    rw [Nat.mul_comm (a / b), Nat.div_add_mod]
  rw [pending, denominator, numerator]

theorem udiv_spec {a b : BitVec 128} (bFits : b.toNat ≤ 2 ^ 127) (pos : 0 < b.toNat)
    (fits : a.toNat * 2 ^ 64 / b.toNat < 2 ^ 128) : ∃ quotient,
      udiv a b = some quotient ∧ Exact.udiv a b = some quotient ∧
        quotient.toNat = a.toNat * 2 ^ 64 / b.toNat := by
  obtain ⟨skipped, bounded, stops, divides, -⟩ := skipZeros_spec 64 0 b
  rw [Nat.zero_add] at stops
  obtain ⟨odd, split⟩ := divides
  have nonzero : b ≠ 0#128 := by
    intro zero
    rw [zero] at pos
    exact absurd pos (Nat.lt_irrefl 0)
  have divisor : (b >>> skipped).toNat = odd := by
    rw [toNat_shiftRight, split, Nat.mul_div_cancel_left _ (Nat.two_pow_pos skipped)]
  have oddFits := Nat.le_mul_of_pos_left odd (Nat.two_pow_pos skipped)
  have remainder := toNat_umod (x := a) (y := b)
  have small := Nat.mod_lt a.toNat pos
  have start := pending_start a.toNat split
  rw [← remainder, ← toNat_udiv, ← divisor] at start
  obtain ⟨last, quotient, computes, exact, same⟩ := fractionDigits_spec 129 0 skipped (a % b)
    (b >>> skipped) (a / b) (by omega) (by decide) (by omega) (by omega)
    (by rw [divisor, Nat.mul_comm, ← split]; omega) (by rw [start]; exact fits)
  rw [start] at same
  have room : quotient.toNat * 2 ^ (64 - last) < 2 ^ 128 := by rw [same]; exact fits
  have moved := shiftLeft_toNat room
  have finished : (if last < 64 then quotient <<< (64 - last) else quotient).toNat =
      a.toNat * 2 ^ 64 / b.toNat := by
    rw [← same]
    split
    · exact moved
    · next all =>
        have none : 64 - last = 0 := by omega
        rw [none, Nat.pow_zero, Nat.mul_one]
  refine ⟨_, ?_, ?_, finished⟩
  · rw [udiv, if_neg nonzero, stops]
    dsimp only
    rw [computes]
    rfl
  · rw [Exact.udiv, if_neg nonzero, Exact.skipZeros_eq, stops, bind_some]
    dsimp only
    rw [exact, bind_some, Exact.shiftLeft, if_pos room, apply_ite some]

/-- Quotients and products are exact up to the last digit kept, as long as they fit. -/
theorem udiv_umul_exact (a b : BitVec 128) (aFits : a.toNat ≤ 2 ^ 127) (bFits : b.toNat ≤ 2 ^ 127) :
    (0 < b.toNat -> a.toNat * 2 ^ 64 / b.toNat < 2 ^ 128 -> ∃ quotient,
      udiv a b = some quotient ∧ Exact.udiv a b = some quotient ∧ quotient.toNat = a.toNat * 2 ^ 64 / b.toNat) ∧
    (a.toNat * b.toNat / 2 ^ 64 ≤ 2 ^ 127 -> ∃ product,
      umul a b = some product ∧ product.toNat = a.toNat * b.toNat / 2 ^ 64) := by
  refine ⟨udiv_spec bFits, fun fits => ?_⟩
  obtain ⟨correct, returns⟩ := umul_spec aFits bFits
  obtain ⟨product, computes⟩ := isSome_iff_exists.mp (returns fits)
  exact ⟨product, computes, correct product computes⟩

/-- A divisor of two words, whose remainder needs several rounds. -/
theorem udiv_umul_exact_third : ((1#128 <<< 64).toNat ≤ 2 ^ 127 ∧ (3#128 <<< 64 + 1#128).toNat ≤ 2 ^ 127) ∧
    (∃ quotient, udiv (1#128 <<< 64) (3#128 <<< 64 + 1#128) = some quotient ∧
        Exact.udiv (1#128 <<< 64) (3#128 <<< 64 + 1#128) = some quotient ∧
        quotient.toNat = (1#128 <<< 64).toNat * 2 ^ 64 / (3#128 <<< 64 + 1#128).toNat) ∧
    ∃ product, umul (1#128 <<< 64) (3#128 <<< 64 + 1#128) = some product ∧
      product.toNat = (1#128 <<< 64).toNat * (3#128 <<< 64 + 1#128).toNat / 2 ^ 64 := by
  obtain ⟨divides, multiplies⟩ := udiv_umul_exact (1#128 <<< 64) (3#128 <<< 64 + 1#128) (by decide) (by decide)
  exact ⟨by decide, divides (by decide) (by decide), multiplies (by decide)⟩

end Ns3.Core.Int64x64
