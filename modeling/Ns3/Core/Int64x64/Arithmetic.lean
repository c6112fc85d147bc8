import Mathlib.Data.Nat.Bitwise
import Ns3.Semantics.Reciprocal

/-!
# 64.64 fixed point

`int64x64_t` on the native 128-bit integers. A value counts units of 2⁻⁶⁴ in two's
complement; the unsigned operations work on the bits. `none` is a failed assertion, or a
division by zero.
-/

namespace Ns3.Core

open Ns3.Semantics Option BitVec

/-- `int64x64_t`. -/
structure Int64x64 where
  v : BitVec 128
  deriving DecidableEq

namespace Int64x64

/-- `HP128_MASK_HI_BIT`. -/
def maskHiBit : BitVec 128 := 1#128 <<< 127

/-- `HP_MASK_LO`. -/
def maskLo : BitVec 128 := 0xffffffffffffffff#128

/-- The constructors from integers. -/
def ofInt (v : Int) : Int64x64 :=
  ⟨BitVec.ofInt 128 v <<< 64⟩

/-- The constructor from the two words. -/
def ofWords (hi : Int64) (lo : UInt64) : Int64x64 :=
  ⟨(BitVec.ofInt 128 hi.toInt <<< 64) ||| BitVec.ofNat 128 lo.toNat⟩

variable (x : Int64x64)

def isNegative : Bool :=
  x.v.msb

def getHigh : Int64 :=
  Int64.ofBitVec ((x.v.sshiftRight 64).setWidth 64)

def getLow : UInt64 :=
  UInt64.ofBitVec ((x.v &&& maskLo).setWidth 64)

def neg : Int64x64 :=
  ⟨-x.v⟩

def add (lhs rhs : Int64x64) : Int64x64 :=
  ⟨lhs.v + rhs.v⟩

def sub (lhs rhs : Int64x64) : Int64x64 :=
  ⟨lhs.v - rhs.v⟩

/-- `Round`, halves away from zero. -/
def round : Int64 :=
  let value := if x.isNegative then x.neg else x
  let retval := (value.add (ofWords 0 0x8000000000000000)).getHigh
  if x.isNegative then -retval else retval

/-- The magnitude of an operand, for `output_sign`. -/
def magnitude : BitVec 128 :=
  if x.isNegative then -x.v else x.v

/-- `Umul`. -/
def umul (a b : BitVec 128) : Option (BitVec 128) :=
  let al := a &&& maskLo
  let bl := b &&& maskLo
  let ah := a >>> 64
  let bh := b >>> 64
  let res := (al * bl) >>> 64 + (ah * bl + al * bh)
  let high := ah * bh
  if high ≤ 1#128 <<< 63 then
    if res ≤ res + high <<< 64 then some (res + high <<< 64) else none
  else none

/-- `Mul`. -/
def mul (x o : Int64x64) : Option Int64x64 :=
  (umul x.magnitude o.magnitude).bind fun result =>
    if x.isNegative != o.isNegative then
      if result ≤ maskHiBit then some ⟨-result⟩ else none
    else
      if result < maskHiBit then some ⟨result⟩ else none

/-- The loop of `Udiv` that skips the trailing zeros of the divisor, with the number of
digits it may still skip. -/
def skipZeros : Nat -> Nat -> BitVec 128 -> Nat × BitVec 128
  | 0, shift, den => (shift, den)
  | more + 1, shift, den =>
    if den &&& 1#128 = 0#128 then skipZeros more (shift + 1) (den >>> 1) else (shift, den)

/-- The loop that skips the leading zeros of the remainder. -/
def skipLeading : Nat -> Nat -> BitVec 128 -> Nat × BitVec 128
  | 0, shift, rem => (shift, rem)
  | more + 1, shift, rem =>
    if rem &&& maskHiBit = 0#128 then skipLeading more (shift + 1) (rem <<< 1) else (shift, rem)

/-- The loop that casts off bits of the divisor. -/
def castOff (rem : BitVec 128) : Nat -> Nat -> BitVec 128 -> Nat × BitVec 128
  | 0, shift, den => (shift, den)
  | more + 1, shift, den =>
    if den &&& 1#128 = 0#128 ∨ rem < den then castOff rem more (shift + 1) (den >>> 1)
    else (shift, den)

/-- The loop of `Udiv` over the fraction digits, with a bound on its iterations. -/
def fractionDigits : Nat -> Nat -> Nat -> BitVec 128 -> BitVec 128 -> BitVec 128 -> Option (Nat × BitVec 128)
  | 0, digis, _, rem, _, result =>
    if digis < 64 ∧ rem ≠ 0#128 then none else some (digis, result)
  | fuel + 1, digis, shift, rem, den, result =>
    if digis < 64 ∧ rem ≠ 0#128 then
      let (shift, rem) := skipLeading (64 - (digis + shift)) shift rem
      let (shift, den) := castOff rem (64 - (digis + shift)) shift den
      if den = 0#128 then
        none
      else
        fractionDigits fuel (digis + shift) 0 (rem % den) den (result <<< shift + rem / den)
    else some (digis, result)

/-- `Udiv`. -/
def udiv (a b : BitVec 128) : Option (BitVec 128) :=
  if b = 0#128 then
    none
  else
    let (shift, den) := skipZeros 64 0 b
    (fractionDigits 129 0 shift (a % b) den (a / b)).map fun (digis, result) =>
      if digis < 64 then result <<< (64 - digis) else result

/-- `Div`. -/
def div (x o : Int64x64) : Option Int64x64 :=
  (udiv x.magnitude o.magnitude).map fun result =>
    if x.isNegative != o.isNegative then ⟨-result⟩ else ⟨result⟩

/-- `UmulByInvert`. -/
def umulByInvert (a b : BitVec 128) : Option (BitVec 128) :=
  if b ≤ maskHiBit then
    let al := a &&& maskLo
    let bl := b &&& maskLo
    let ah := a >>> 64
    let bh := b >>> 64
    some (ah * bh + (ah * bl + al * bh) >>> 64)
  else none

/-- `MulByInvert`. -/
def mulByInvert (x o : Int64x64) : Option Int64x64 :=
  (umulByInvert x.magnitude o.v).map fun result =>
    if x.isNegative then ⟨-result⟩ else ⟨result⟩

/-- `Invert`. -/
def invert (v : UInt64) : Option Int64x64 :=
  if 1 < v then
    (udiv (1#128 <<< 64) (BitVec.ofNat 128 v.toNat)).bind fun result =>
      ((ofWords v.toInt64 0).mulByInvert ⟨result⟩).map fun tmp =>
        if tmp.getHigh = 1 then ⟨result⟩ else ⟨result + 1#128⟩
  else none

@[simp] theorem toNat_maskLo (a : BitVec 128) : (a &&& maskLo).toNat = a.toNat % 2 ^ 64 := by
  rw [toNat_and]
  exact Nat.and_two_pow_sub_one_eq_mod a.toNat 64

@[simp] theorem toNat_high (a : BitVec 128) : (a >>> 64).toNat = a.toNat / 2 ^ 64 := by
  rw [toNat_ushiftRight, Nat.shiftRight_eq_div_pow]

/-- The middle digits of a product, from the products of the words. -/
theorem mul_div_words (a b : Nat) : a * b / 2 ^ 64 = a / 2 ^ 64 * (b / 2 ^ 64) * 2 ^ 64 +
    (a / 2 ^ 64 * (b % 2 ^ 64) + a % 2 ^ 64 * (b / 2 ^ 64)) + a % 2 ^ 64 * (b % 2 ^ 64) / 2 ^ 64 := by
  have product : a * b = 2 ^ 64 * (a / 2 ^ 64 * (b / 2 ^ 64) * 2 ^ 64 +
      (a / 2 ^ 64 * (b % 2 ^ 64) + a % 2 ^ 64 * (b / 2 ^ 64))) + a % 2 ^ 64 * (b % 2 ^ 64) := by
    conv_lhs => rw [← Nat.div_add_mod a (2 ^ 64), ← Nat.div_add_mod b (2 ^ 64)]
    ring
  rw [product, Nat.mul_add_div (by decide)]

variable {a b rem : BitVec 128}

theorem umul_spec (aFits : a.toNat ≤ 2 ^ 127) (bFits : b.toNat ≤ 2 ^ 127) :
    (∀ result, umul a b = some result -> result.toNat = a.toNat * b.toNat / 2 ^ 64) ∧
      (a.toNat * b.toNat / 2 ^ 64 ≤ 2 ^ 127 -> (umul a b).isSome) := by
  have words := mul_div_words a.toNat b.toNat
  have ah : a.toNat / 2 ^ 64 ≤ 2 ^ 63 := by omega
  have bh : b.toNat / 2 ^ 64 ≤ 2 ^ 63 := by omega
  have al : a.toNat % 2 ^ 64 ≤ 2 ^ 64 - 1 := by omega
  have bl : b.toNat % 2 ^ 64 ≤ 2 ^ 64 - 1 := by omega
  have low := Nat.mul_le_mul al bl
  have midA := Nat.mul_le_mul ah bl
  have midB := Nat.mul_le_mul al bh
  have high := Nat.mul_le_mul ah bh
  have res : (((a &&& maskLo) * (b &&& maskLo)) >>> 64 +
      (a >>> 64 * (b &&& maskLo) + (a &&& maskLo) * b >>> 64)).toNat =
        a.toNat % 2 ^ 64 * (b.toNat % 2 ^ 64) / 2 ^ 64 +
          (a.toNat / 2 ^ 64 * (b.toNat % 2 ^ 64) + a.toNat % 2 ^ 64 * (b.toNat / 2 ^ 64)) := by
    simp only [toNat_add, toNat_mul, toNat_high, toNat_maskLo]
    omega
  have product : (a >>> 64 * b >>> 64).toNat = a.toNat / 2 ^ 64 * (b.toNat / 2 ^ 64) := by
    simp only [toNat_mul, toNat_high]
    omega
  have limit : (1#128 <<< 63).toNat = 2 ^ 63 := rfl
  simp only [umul]
  generalize ((a &&& maskLo) * (b &&& maskLo)) >>> 64 +
    (a >>> 64 * (b &&& maskLo) + (a &&& maskLo) * b >>> 64) = middle at res ⊢
  generalize a >>> 64 * b >>> 64 = top at product ⊢
  have shifted : (top <<< 64).toNat = top.toNat * 2 ^ 64 % 2 ^ 128 := by
    rw [toNat_shiftLeft, Nat.shiftLeft_eq]
  have sum := toNat_add middle (top <<< 64)
  simp only [le_def, limit]
  constructor
  · intro result success
    obtain ⟨topFits, kept⟩ := ite_none_right_eq_some.mp success
    obtain ⟨noWrap, same⟩ := ite_none_right_eq_some.mp kept
    obtain rfl := some.inj same
    omega
  · intro fits
    rw [if_pos (by omega), if_pos (by omega)]
    rfl

variable {x : Int64x64}

theorem magnitude_of_nonneg (nonneg : x.v.toNat < 2 ^ 127) : x.isNegative = false ∧ x.magnitude = x.v := by
  have pos : x.isNegative = false := by
    rw [isNegative, msb_eq_decide]
    exact decide_eq_false (by omega)
  rw [magnitude, pos]
  exact ⟨rfl, rfl⟩

theorem mul_of_nonneg {o : Int64x64} (xNonneg : x.v.toNat < 2 ^ 127) (oNonneg : o.v.toNat < 2 ^ 127) :
    x.mul o = if x.v.toNat * o.v.toNat / 2 ^ 64 < 2 ^ 127 then
      some ⟨BitVec.ofNat 128 (x.v.toNat * o.v.toNat / 2 ^ 64)⟩ else none := by
  obtain ⟨xSign, xMagnitude⟩ := magnitude_of_nonneg xNonneg
  obtain ⟨oSign, oMagnitude⟩ := magnitude_of_nonneg oNonneg
  obtain ⟨correct, returns⟩ := umul_spec (Nat.le_of_lt xNonneg) (Nat.le_of_lt oNonneg)
  have limit : maskHiBit.toNat = 2 ^ 127 := rfl
  rw [mul, xMagnitude, oMagnitude, xSign, oSign]
  simp only [bne_self_eq_false, Bool.false_eq_true, if_false, BitVec.lt_def, limit]
  cases product : umul x.v o.v with
  | none =>
    rw [if_neg fun fits => by simpa [product] using returns (Nat.le_of_lt fits)]
    rfl
  | some result =>
    have value := correct result product
    rw [bind_some, value]
    split
    · rw [← value, BitVec.ofNat_toNat, BitVec.setWidth_eq]
    · rfl

theorem toNat_shiftRight (a : BitVec 128) (count : Nat) : (a >>> count).toNat = a.toNat / 2 ^ count := by
  rw [toNat_ushiftRight, Nat.shiftRight_eq_div_pow]

theorem even_iff (a : BitVec 128) : a &&& 1#128 = 0#128 ↔ a.toNat % 2 = 0 := by
  rw [← toNat_inj, toNat_and]
  exact iff_of_eq (congrArg (· = 0) (Nat.and_one_is_mod a.toNat))

theorem maskHiBit_eq_zero (fits : a.toNat < 2 ^ 127) : a &&& maskHiBit = 0#128 := by
  rw [← toNat_inj, toNat_and]
  show a.toNat &&& 2 ^ 127 = 0
  rw [Nat.and_two_pow, Nat.testBit_lt_two_pow fits]
  rfl

/-- Skipping zeros divides by a power of two, as long as that is exact. -/
theorem skipZeros_spec (more shift : Nat) (den : BitVec 128) : ∃ skipped ≤ more,
    skipZeros more shift den = (shift + skipped, den >>> skipped) ∧
      2 ^ skipped ∣ den.toNat ∧ (2 ^ more ∣ den.toNat -> skipped = more) := by
  induction more generalizing shift den with
  | zero => exact ⟨0, Nat.le_refl 0, by simp [skipZeros], Nat.one_dvd _, fun _ => rfl⟩
  | succ more ih =>
    rw [skipZeros]
    by_cases even : den &&& 1#128 = 0#128
    · have halved : den.toNat = 2 * (den >>> 1).toNat := by
        rw [toNat_shiftRight]
        have := (even_iff den).mp even
        omega
      obtain ⟨skipped, bounded, stops, divides, all⟩ := ih (shift + 1) (den >>> 1)
      refine ⟨skipped + 1, Nat.succ_le_succ bounded, ?_, ?_, fun whole => ?_⟩
      · rw [if_pos even, stops, ← shiftRight_add, Nat.add_assoc, Nat.add_comm 1]
      · rw [halved, Nat.pow_succ']
        exact Nat.mul_dvd_mul_left 2 divides
      · rw [halved, Nat.pow_succ'] at whole
        rw [all (Nat.dvd_of_mul_dvd_mul_left Nat.two_pos whole)]
    · refine ⟨0, Nat.zero_le _, ?_, Nat.one_dvd _, fun whole => ?_⟩
      · rw [if_neg even, ushiftRight_zero, Nat.add_zero]
      · have := (Nat.dvd_of_pow_dvd (Nat.succ_le_succ (Nat.zero_le more)) whole)
        exact absurd ((even_iff den).mpr (Nat.mod_eq_zero_of_dvd (by simpa using this))) even

/-- Skipping zeros of a short remainder multiplies by a power of two. -/
theorem skipLeading_eq {more : Nat} (shift : Nat) (fits : rem.toNat * 2 ^ more < 2 ^ 128) :
    skipLeading more shift rem = (shift + more, rem <<< more) := by
  induction more generalizing shift rem with
  | zero => simp [skipLeading]
  | succ more ih =>
    have pos := Nat.two_pow_pos more
    have low : rem.toNat < 2 ^ 127 := by
      rw [Nat.pow_succ'] at fits
      nlinarith
    have doubled : (rem <<< 1).toNat = rem.toNat * 2 := by
      rw [toNat_shiftLeft, Nat.shiftLeft_eq]
      omega
    rw [skipLeading, if_pos (maskHiBit_eq_zero low), ih]
    · rw [← shiftLeft_add, Nat.add_assoc, Nat.add_comm 1]
    · rw [doubled, Nat.mul_assoc, ← Nat.pow_succ']
      exact fits

/-- All the digits of a fraction at once: the loop of `Udiv` when nothing is cast off. -/
theorem fractionDigits_eq {shift : Nat} {den result : BitVec 128} (bounded : shift ≤ 64)
    (fits : rem.toNat * 2 ^ (64 - shift) < 2 ^ 128) (nonzero : den ≠ 0#128)
    (more : rem ≠ 0#128) (fuel : Nat) :
    fractionDigits (fuel + 2) 0 shift rem den result = some (64, result <<< 64 + rem <<< (64 - shift) / den) := by
  have whole : shift + (64 - shift) = 64 := by omega
  rw [fractionDigits, if_pos ⟨by decide, more⟩, Nat.zero_add, skipLeading_eq shift fits]
  simp only [whole, castOff, Nat.sub_self, Nat.zero_add, if_neg nonzero, fractionDigits,
    Nat.lt_irrefl, false_and, if_false]

theorem fractionDigits_zero (fuel digis shift : Nat) (den result : BitVec 128) :
    fractionDigits fuel digis shift 0#128 den result = some (digis, result) := by
  cases fuel <;> simp [fractionDigits]

theorem ofNat_mul_word (a : BitVec 128) : BitVec.ofNat 128 (a.toNat * 2 ^ 64) = a <<< 64 := by
  rw [← BitVec.toNat_inj, BitVec.toNat_shiftLeft, Nat.shiftLeft_eq, BitVec.toNat_ofNat]

theorem mul_div_digits (a : Nat) {b : Nat} (pos : 0 < b) : a * 2 ^ 64 / b = a / b * 2 ^ 64 + a % b * 2 ^ 64 / b := by
  have spread : a * 2 ^ 64 = b * (a / b * 2 ^ 64) + a % b * 2 ^ 64 := by
    conv_lhs => rw [← Nat.div_add_mod a b]
    ring
  rw [spread, Nat.mul_add_div pos]

/-- A remainder by one word of digits leaves room for all digits of the fraction. -/
theorem remainder_fits {a b skipped : Nat} (oneWord : b < 2 ^ 64 ∨ 2 ^ 64 ∣ b)
    (pos : 0 < b) (bounded : b < 2 ^ 128) (all : 2 ^ 64 ∣ b -> skipped = 64) :
    a % b * 2 ^ (64 - skipped) < 2 ^ 128 := by
  have small := Nat.mod_lt a pos
  rcases oneWord with short | divides
  · calc a % b * 2 ^ (64 - skipped) ≤ a % b * 2 ^ 64 :=
          Nat.mul_le_mul_left _ (Nat.pow_le_pow_right Nat.two_pos (Nat.sub_le 64 skipped))
      _ < 2 ^ 64 * 2 ^ 64 :=
        Nat.mul_lt_mul_of_pos_right (Nat.lt_trans small short) (Nat.two_pow_pos 64)
      _ = 2 ^ 128 := (Nat.pow_add 2 64 64).symm
  · rw [all divides, Nat.sub_self, Nat.pow_zero, Nat.mul_one]
    exact Nat.lt_trans small bounded

/-- The digits of a fraction do not change when zeros are skipped on both sides. -/
theorem shifted_quotient {den : BitVec 128} {skipped : Nat} (bounded : skipped ≤ 64)
    (divides : 2 ^ skipped ∣ den.toNat) (fits : rem.toNat * 2 ^ (64 - skipped) < 2 ^ 128)
    (below : rem.toNat * 2 ^ 64 / den.toNat < 2 ^ 128) :
    rem <<< (64 - skipped) / (den >>> skipped) = BitVec.ofNat 128 (rem.toNat * 2 ^ 64 / den.toNat) := by
  obtain ⟨odd, split⟩ := divides
  have powers : 2 ^ 64 = 2 ^ skipped * 2 ^ (64 - skipped) := by
    rw [← Nat.pow_add, Nat.add_sub_cancel' bounded]
  have cancelled : rem.toNat * 2 ^ 64 / den.toNat = rem.toNat * 2 ^ (64 - skipped) / odd := by
    rw [powers, split, Nat.mul_left_comm, Nat.mul_div_mul_left _ _ (Nat.two_pow_pos skipped)]
  have right : (den >>> skipped).toNat = odd := by
    rw [toNat_shiftRight, split, Nat.mul_div_cancel_left _ (Nat.two_pow_pos skipped)]
  have left : (rem <<< (64 - skipped)).toNat = rem.toNat * 2 ^ (64 - skipped) := by
    rw [BitVec.toNat_shiftLeft, Nat.shiftLeft_eq, Nat.mod_eq_of_lt fits]
  rw [← BitVec.toNat_inj, BitVec.toNat_udiv, right, left, ← cancelled, BitVec.toNat_ofNat]
  exact (Nat.mod_eq_of_lt below).symm

/-- `Udiv` by a divisor with one word of digits gives the quotient, rounded down. -/
theorem udiv_eq (oneWord : b.toNat < 2 ^ 64 ∨ 2 ^ 64 ∣ b.toNat)
    (pos : 0 < b.toNat) (fits : a.toNat * 2 ^ 64 / b.toNat < 2 ^ 128) :
    udiv a b = some (BitVec.ofNat 128 (a.toNat * 2 ^ 64 / b.toNat)) := by
  obtain ⟨skipped, bounded, stops, divides, all⟩ := skipZeros_spec 64 0 b
  have nonzero : b ≠ 0#128 := fun zero => by simp [zero] at pos
  have nonzeroDen : b >>> skipped ≠ 0#128 := by
    intro zero
    rw [← BitVec.toNat_inj, toNat_shiftRight] at zero
    exact absurd zero (Nat.ne_of_gt (Nat.div_pos (Nat.le_of_dvd pos divides) (Nat.two_pow_pos skipped)))
  have remFits : (a % b).toNat * 2 ^ (64 - skipped) < 2 ^ 128 := by
    rw [BitVec.toNat_umod]
    exact remainder_fits oneWord pos b.isLt all
  rw [mul_div_digits a.toNat pos, ← BitVec.toNat_umod] at fits ⊢
  have quotient := shifted_quotient bounded divides remFits (Nat.lt_of_le_of_lt (Nat.le_add_left _ _) fits)
  have sum : BitVec.ofNat 128 (a.toNat / b.toNat * 2 ^ 64 + (a % b).toNat * 2 ^ 64 / b.toNat) =
      (a / b) <<< 64 + BitVec.ofNat 128 ((a % b).toNat * 2 ^ 64 / b.toNat) := by
    rw [BitVec.ofNat_add, ← BitVec.toNat_udiv, ofNat_mul_word]
  rw [udiv, if_neg nonzero, stops, Nat.zero_add, sum]
  by_cases exact : a % b = 0#128
  · simp [fractionDigits_zero, exact]
  · simp only [fractionDigits_eq bounded remFits nonzeroDen exact 127, quotient, map_some, Nat.lt_irrefl, if_false]

variable {n : Nat}

theorem ofInt_toNat (fits : n < 2 ^ 63) : (ofInt n).v.toNat = n * 2 ^ 64 := by
  rw [ofInt, ofInt_natCast, toNat_shiftLeft, Nat.shiftLeft_eq, toNat_ofNat]
  omega

theorem ofWords_toNat {hi : Int64} {lo : UInt64} (nonneg : 0 ≤ hi.toInt) :
    (ofWords hi lo).v.toNat = hi.toInt.toNat * 2 ^ 64 + lo.toNat := by
  have small := hi.toInt_lt
  have loSmall := lo.toNat_lt
  obtain ⟨high, same⟩ := Int.eq_ofNat_of_zero_le nonneg
  have shifted : (BitVec.ofInt 128 hi.toInt <<< 64).toNat = high <<< 64 := by
    rw [same, BitVec.ofInt_natCast, BitVec.toNat_shiftLeft, Nat.shiftLeft_eq, Nat.shiftLeft_eq, BitVec.toNat_ofNat]
    omega
  have low : (BitVec.ofNat 128 lo.toNat).toNat = lo.toNat := by
    rw [BitVec.toNat_ofNat]
    omega
  rw [ofWords, BitVec.toNat_or, shifted, low, ← Nat.shiftLeft_add_eq_or_of_lt loSmall, Nat.shiftLeft_eq, same]
  rfl

theorem getHigh_of_nonneg (nonneg : x.v.toNat < 2 ^ 127) : x.getHigh.toInt = (x.v.toNat / 2 ^ 64 : Nat) := by
  have pos : x.v.msb = false := (magnitude_of_nonneg nonneg).1
  have high : ((x.v.sshiftRight 64).setWidth 64).toNat = x.v.toNat / 2 ^ 64 := by
    rw [sshiftRight_eq_of_msb_false pos, toNat_setWidth, toNat_high]
    omega
  rw [getHigh, ← Int64.toInt_toBitVec, Int64.toBitVec_ofBitVec, toInt_eq_toNat_of_lt (by omega), high]

theorem round_of_nonneg (fits : x.v.toNat + 2 ^ 63 < 2 ^ 127) :
    x.round.toInt = ((x.v.toNat + 2 ^ 63) / 2 ^ 64 : Nat) := by
  have pos := (magnitude_of_nonneg (x := x) (by omega)).1
  have half : (ofWords 0 0x8000000000000000).v.toNat = 2 ^ 63 := rfl
  have sum : (x.add (ofWords 0 0x8000000000000000)).v.toNat = x.v.toNat + 2 ^ 63 := by
    rw [add, toNat_add, half]
    omega
  simp only [round, pos, Bool.false_eq_true, if_false]
  rw [getHigh_of_nonneg (by omega), sum]

theorem umulByInvert_eq (integer : a.toNat = n * 2 ^ 64) (fits : n < 2 ^ 63) (bFits : b.toNat ≤ 2 ^ 127) :
    umulByInvert a b = some (BitVec.ofNat 128 (n * b.toNat / 2 ^ 64)) := by
  have limit : maskHiBit.toNat = 2 ^ 127 := rfl
  have high : (a >>> 64).toNat = n := by
    rw [toNat_high, integer]
    omega
  have low : (a &&& maskLo).toNat = 0 := by
    rw [toNat_maskLo, integer]
    omega
  have digits : n * b.toNat / 2 ^ 64 = n * (b.toNat / 2 ^ 64) + n * (b.toNat % 2 ^ 64) / 2 ^ 64 := by
    have spread : n * b.toNat = 2 ^ 64 * (n * (b.toNat / 2 ^ 64)) + n * (b.toNat % 2 ^ 64) := by
      conv_lhs => rw [← Nat.div_add_mod b.toNat (2 ^ 64)]
      ring
    rw [spread, Nat.mul_add_div (by decide)]
  have bh : b.toNat / 2 ^ 64 ≤ 2 ^ 63 := by omega
  have bl : b.toNat % 2 ^ 64 ≤ 2 ^ 64 - 1 := by omega
  have top := Nat.mul_le_mul (Nat.le_of_lt fits) bh
  have middle := Nat.mul_le_mul (Nat.le_of_lt fits) bl
  rw [umulByInvert, if_pos (by rw [BitVec.le_def, limit]; exact bFits), Option.some.injEq,
    ← BitVec.toNat_inj, BitVec.toNat_ofNat, digits]
  simp only [BitVec.toNat_add, BitVec.toNat_mul, toNat_high, toNat_maskLo, high, low]
  omega

variable {v : UInt64}

theorem toInt_toInt64 (fits : v.toNat < 2 ^ 63) : v.toInt64.toInt = v.toNat := by
  rw [← Int64.toInt_toBitVec]
  exact toInt_eq_toNat_of_lt (by rw [UInt64.toBitVec_toInt64, UInt64.toNat_toBitVec]; omega)

theorem mulByInvert_eq {o : Int64x64} (integer : x.v.toNat = n * 2 ^ 64)
    (fits : n < 2 ^ 63) (oFits : o.v.toNat ≤ 2 ^ 127) :
    x.mulByInvert o = some ⟨BitVec.ofNat 128 (n * o.v.toNat / 2 ^ 64)⟩ := by
  obtain ⟨sign, magnitude⟩ := magnitude_of_nonneg (x := x) (by omega)
  rw [mulByInvert, magnitude, umulByInvert_eq integer fits oFits, sign]
  rfl

theorem toNat_ofNat_of_fits (fits : n < 2 ^ 128) : (BitVec.ofNat 128 n).toNat = n :=
  (BitVec.toNat_ofNat n 128).trans (Nat.mod_eq_of_lt fits)

/-- How `Invert` checks whether its quotient is exact. -/
theorem invert_check {quotient : Nat} (fits : v.toNat < 2 ^ 63)
    (small : quotient ≤ 2 ^ 127) (product : v.toNat * quotient ≤ 2 ^ 128) :
    ∃ tmp, (ofWords v.toInt64 0).mulByInvert ⟨BitVec.ofNat 128 quotient⟩ = some tmp ∧
      (tmp.getHigh = 1 ↔ v.toNat * quotient = 2 ^ 128) := by
  have value := toNat_ofNat_of_fits (n := quotient) (by omega)
  have integer : (ofWords v.toInt64 0).v.toNat = v.toNat * 2 ^ 64 := by
    rw [ofWords_toNat (by rw [toInt_toInt64 fits]; omega), toInt_toInt64 fits, Int.toNat_natCast]
    exact Nat.add_zero _
  have checked := mulByInvert_eq (o := ⟨BitVec.ofNat 128 quotient⟩) integer fits (by rw [value]; exact small)
  rw [value] at checked
  generalize v.toNat * quotient = whole at checked product ⊢
  refine ⟨_, checked, ?_⟩
  have tmpToNat := toNat_ofNat_of_fits (n := whole / 2 ^ 64) (by omega)
  have high := getHigh_of_nonneg (x := ⟨BitVec.ofNat 128 (whole / 2 ^ 64)⟩) (by rw [tmpToNat]; omega)
  rw [tmpToNat] at high
  have one : (1 : Int64).toInt = 1 := rfl
  rw [← Int64.toInt_inj, high, one]
  omega

/-- `Invert` rounds the reciprocal up. -/
theorem invert_eq (more : 1 < v.toNat) (fits : v.toNat < 2 ^ 63) :
    invert v = some ⟨BitVec.ofNat 128 (Reciprocal.reciprocal (2 ^ 128) v.toNat)⟩ := by
  have pos : 0 < v.toNat := Nat.lt_trans Nat.zero_lt_one more
  have one : (1#128 <<< 64).toNat * 2 ^ 64 = 2 ^ 128 := by
    rw [show (1#128 <<< 64).toNat = 2 ^ 64 from rfl]
    norm_num
  have divisor := toNat_ofNat_of_fits (n := v.toNat) (by omega)
  have product := Nat.mul_div_le (2 ^ 128) v.toNat
  have bound : 2 ^ 128 / v.toNat ≤ 2 ^ 127 := Nat.div_le_of_le_mul (by omega)
  have divided := udiv_eq (a := 1#128 <<< 64) (b := BitVec.ofNat 128 v.toNat)
    (by rw [divisor]; exact .inl (by omega)) (by rw [divisor]; exact pos)
    (by rw [divisor, one]; exact Nat.lt_of_le_of_lt bound (by norm_num))
  rw [divisor, one] at divided
  have enabled : 1 < v := by
    rw [UInt64.lt_iff_toNat_lt]
    exact more
  obtain ⟨tmp, checked, exact⟩ := invert_check fits bound product
  rw [invert, if_pos enabled, divided, bind_some, checked, map_some, Reciprocal.reciprocal_eq pos]
  by_cases whole : v.toNat * (2 ^ 128 / v.toNat) = 2 ^ 128
  · rw [if_pos (exact.mpr whole), if_pos whole]
  · rw [if_neg fun one => whole (exact.mp one), if_neg whole, BitVec.ofNat_add]

theorem ofInt_eq_of_toNat (fits : n < 2 ^ 63) (same : x.v.toNat = n * 2 ^ 64) : x = ofInt n := by
  have equal : x.v = (ofInt n).v := by
    rw [← toNat_inj, same, ofInt_toNat fits]
  cases x
  exact congrArg Int64x64.mk equal

theorem mul_ofInt {m : Nat} (mFits : m < 2 ^ 63) (nFits : n < 2 ^ 63) :
    (ofInt m).mul (ofInt n) = if m * n < 2 ^ 63 then some (ofInt (m * n : Nat)) else none := by
  have middle : m * 2 ^ 64 * (n * 2 ^ 64) / 2 ^ 64 = m * n * 2 ^ 64 := by
    rw [show m * 2 ^ 64 * (n * 2 ^ 64) = 2 ^ 64 * (m * n * 2 ^ 64) by ring, Nat.mul_div_cancel_left _ (by decide)]
  rw [mul_of_nonneg (by rw [ofInt_toNat mFits]; omega) (by rw [ofInt_toNat nFits]; omega),
    ofInt_toNat mFits, ofInt_toNat nFits, middle]
  generalize m * n = product
  by_cases fits : product < 2 ^ 63
  · rw [if_pos fits, if_pos (by omega), Option.some.injEq]
    exact ofInt_eq_of_toNat fits (toNat_ofNat_of_fits (by omega))
  · rw [if_neg fits, if_neg (by omega)]

theorem round_ofInt (fits : n < 2 ^ 63) : (ofInt n).round = Int64.ofNat n := by
  have value := ofInt_toNat fits
  rw [← Int64.toInt_inj, round_of_nonneg (by omega), value, Int64.toInt_ofNat_of_lt fits]
  omega

theorem ofInt_ne_zero (pos : 0 < n) (fits : n < 2 ^ 63) : ofInt n ≠ ofInt 0 := by
  intro same
  have value := ofInt_toNat fits
  rw [same] at value
  have zero : (ofInt 0).v.toNat = 0 := rfl
  omega

end Int64x64

end Ns3.Core
