import Ns3.Core.Int64x64.Arithmetic
import Ns3.Semantics.DecimalFraction

/-!
# The text of a 64.64 fixed point number

`operator<<` and `operator>>` of `int64x64_t`. Texts are bytes, and a byte is a signed
`char` where the code calculates with it. `none` is a failed assertion.
-/

namespace Ns3.Core.Int64x64

open Ns3.Semantics List DecimalFraction Int64

/-- The flags and the precision of the stream that `operator<<` reads. -/
structure Format where
  floatfield : Bool
  precision : Nat
  deriving DecidableEq

/-- The default format. Its precision is not used. -/
def defaultFormat (precision : Nat) : Format :=
  ⟨false, precision⟩

/-- Whether `operator<<` should print more digits. -/
def Format.more (format : Format) (places : Nat) (low : Int64x64) : Bool :=
  if format.floatfield then places < format.precision else low.getLow ≠ 0 && places < 20

/-- A bound on the decimal places. -/
def Format.limit (format : Format) : Nat :=
  if format.floatfield then max 1 format.precision else 20

/-- The character of a digit. -/
def digitByte (digit : Nat) : UInt8 :=
  '0'.toUInt8 + UInt8.ofNat digit

/-- An unsigned integer on a stream. -/
def decimalBytes (value : UInt64) : List UInt8 :=
  if value = 0 then [digitByte 0] else ((Nat.digits 10 value.toNat).map digitByte).reverse

/-- The integer and the fraction `operator<<` prints the digits of. -/
def absoluteWords (value : Int64x64) : UInt64 × Int64x64 :=
  if value ≠ ofWords Int64.minValue 0 then
    let absVal := if value.isNegative then value.neg else value
    (absVal.getHigh.toUInt64, ofWords 0 absVal.getLow)
  else
    ((1 : UInt64) <<< 63, ofInt 0)

/-- The loop of `operator<<` over the decimal places, with a bound on its iterations. It
ends with the text, the last digit, and what is left of the fraction. -/
def streamDigits (format : Format) : Nat -> Nat -> Int64x64 -> List UInt8 -> Option (List UInt8 × Int64 × Int64x64)
  | 0, _, _, _ => none
  | fuel + 1, places, low, oss =>
    (low.mul (ofInt 10)).bind fun low =>
      let digit := low.getHigh
      if 0 ≤ digit ∧ digit ≤ 9 then
        let low := low.sub (ofInt digit.toInt)
        let oss := oss ++ [digitByte digit.toInt.toNat]
        if format.more (places + 1) low then
          streamDigits format fuel (places + 1) low oss
        else some (oss, digit, low)
      else none

/-- The walk backwards with the carry, and whether there is still a carry after it. -/
def walkCarry : List UInt8 -> List UInt8 × Bool
  | [] => ([], true)
  | byte :: rest =>
    if byte = '.'.toUInt8 then
      let (rest, carry) := walkCarry rest
      (byte :: rest, carry)
    else if (byte + 1).toInt8 ≤ '9'.toUInt8.toInt8 then
      ((byte + 1) :: rest, false)
    else
      let (rest, carry) := walkCarry rest
      ('0'.toUInt8 :: rest, carry)

/-- Round the last printed digit, based on the first unprinted digit. -/
def roundDigits (digits : List UInt8) (digit nextDigit : Int64) : List UInt8 :=
  if nextDigit > 5 ∨ nextDigit = 5 ∧ digit % 2 = 1 then
    let (rounded, carry) := walkCarry digits.reverse
    if carry then '1'.toUInt8 :: rounded.reverse else rounded.reverse
  else digits

/-- The sign of a number. -/
def signByte (negative : Bool) : UInt8 :=
  if negative then '-'.toUInt8 else '+'.toUInt8

/-- `operator<<`. -/
def write (format : Format) (value : Int64x64) : Option (List UInt8) :=
  let (hi, low) := absoluteWords value
  (streamDigits format format.limit 0 low (decimalBytes hi ++ ['.'.toUInt8])).bind fun (digits, digit, low) =>
      (low.mul (ofInt 10)).map fun low =>
        signByte value.isNegative :: roundDigits digits digit low.getHigh

/-- `isspace`. -/
def isSpace (byte : UInt8) : Bool :=
  byte = 32 || (9 ≤ byte && byte ≤ 13)

/-- The next string on a stream, and the stream after it. -/
def readString (stream : List UInt8) : List UInt8 × List UInt8 :=
  let stream := stream.dropWhile isSpace
  (stream.takeWhile fun byte => !isSpace byte, stream.dropWhile fun byte => !isSpace byte)

/-- The value of a digit character. -/
def digitValue (byte : UInt8) : Int :=
  byte.toInt8.toInt - '0'.toUInt8.toInt8.toInt

variable (str : List UInt8)

/-- `ReadHiDigits`. -/
def readHiDigits : UInt64 :=
  (str.takeWhile (· ≠ 0)).foldl (fun retval byte => retval * 10 + UInt64.ofInt (digitValue byte)) 0

/-- The loop of `ReadLoDigits`, over the characters from the last one back. -/
def accumulateDigits : List UInt8 -> Int64x64 -> Option Int64x64
  | [], low => some low
  | byte :: rest, low =>
    if 0 ≤ digitValue byte ∧ digitValue byte ≤ 9 then
      (((low.add (ofInt (digitValue byte))).add (ofWords 0 5)).div (ofInt 10)).bind (accumulateDigits rest)
    else none

/-- `ReadLoDigits`. -/
def readLoDigits : Option UInt64 :=
  (accumulateDigits str.reverse (ofInt 0)).map getLow

/-- `std::string::find` of a character from a position on. `none` is `npos`. -/
def find (byte : UInt8) (cur : Option Nat) : Option Nat :=
  cur.bind fun cur => ((str.drop cur).findIdx? (· == byte)).map (cur + ·)

/-- The sign of a number, and the position after it. -/
def readSign : Bool × Option Nat :=
  let cur := str.findIdx? (· ≠ ' '.toUInt8)
  match find str '-'.toUInt8 cur with
  | some next => (true, some (next + 1))
  | none =>
    match find str '+'.toUInt8 cur with
    | some next => (false, some (next + 1))
    | none => (false, cur)

/-- The two words of a number. -/
def readWords : Option Nat -> Option (UInt64 × UInt64)
  | none => some (0, 0)
  | some cur =>
    match find str '.'.toUInt8 (some cur) with
    | some next =>
      (readLoDigits (str.drop (next + 1))).map fun lo =>
        (readHiDigits ((str.drop cur).take (next - cur)), lo)
    | none => some (readHiDigits (str.drop cur), 0)

/-- `operator>>`, with the stream after it. The negation wraps around in two's complement. -/
def read (stream : List UInt8) : Option (Int64x64 × List UInt8) :=
  let (str, stream) := readString stream
  let (negative, cur) := readSign str
  (readWords str cur).map fun (hi, lo) =>
    let value := ofWords hi.toInt64 lo
    (if negative then value.neg else value, stream)

theorem getLow_toNat (x : Int64x64) : x.getLow.toNat = x.v.toNat % 2 ^ 64 := by
  have low := toNat_maskLo x.v
  rw [getLow, UInt64.toNat_ofBitVec, BitVec.toNat_setWidth, low]
  omega

theorem magnitude_toNat (x : Int64x64) :
    x.magnitude.toNat = if x.isNegative then 2 ^ 128 - x.v.toNat else x.v.toNat := by
  have bound := x.v.isLt
  rw [magnitude]
  split
  case isTrue negative =>
    have nonzero : 2 ^ 127 ≤ x.v.toNat := by
      rw [isNegative, BitVec.msb_eq_decide] at negative
      exact of_decide_eq_true negative
    rw [BitVec.toNat_neg]
    omega
  case isFalse => rfl

/-- Only the most negative value has no opposite. -/
theorem magnitude_lt {x : Int64x64} (other : x ≠ ofWords minValue 0) : x.magnitude.toNat < 2 ^ 127 := by
  have least : x.v.toNat ≠ 2 ^ 127 := fun same => other (by
    cases x
    exact congrArg Int64x64.mk (BitVec.eq_of_toNat_eq same))
  have bound := x.v.isLt
  rw [magnitude_toNat]
  cases negative : x.isNegative <;> rw [isNegative, BitVec.msb_eq_decide] at negative
  · have := of_decide_eq_false negative
    rw [if_neg Bool.false_ne_true]
    omega
  · have := of_decide_eq_true negative
    rw [if_pos rfl]
    omega

theorem absoluteWords_spec (value : Int64x64) : (absoluteWords value).1.toNat = value.magnitude.toNat / 2 ^ 64 ∧
    (absoluteWords value).2.v.toNat = value.magnitude.toNat % 2 ^ 64 := by
  rw [absoluteWords]
  split
  case isTrue other =>
    have small := magnitude_lt other
    have absolute : (if value.isNegative then value.neg else value).v = value.magnitude := by
      rw [magnitude, neg]
      split <;> rfl
    generalize (if value.isNegative then value.neg else value) = absVal at absolute ⊢
    rw [← absolute] at small ⊢
    have high := getHigh_of_nonneg small
    have nonneg : 0 ≤ absVal.getHigh := by
      rw [le_iff_toInt_le, high]
      exact Int.natCast_nonneg _
    constructor
    · rw [toNat_toUInt64_of_le nonneg, toNatClampNeg, high, Int.toNat_natCast]
    · have zero : (0 : Int64).toInt = 0 := rfl
      rw [ofWords_toNat (Int.le_of_eq zero.symm), zero, getLow_toNat, Int.toNat_zero, Nat.zero_mul, Nat.zero_add]
  case isFalse least =>
    rw [Classical.not_not.mp least]
    exact ⟨rfl, rfl⟩

theorem ofWords_magnitude {value : Int64x64} {hi lo : UInt64}
    (high : hi.toNat = value.magnitude.toNat / 2 ^ 64) (low : lo.toNat = value.magnitude.toNat % 2 ^ 64) :
    (if value.isNegative then (ofWords hi.toInt64 lo).neg else ofWords hi.toInt64 lo) = value := by
  have whole : (ofWords hi.toInt64 lo).v = value.magnitude := by
    by_cases other : value = ofWords minValue 0
    · subst other
      have hiWord : hi = (1 : UInt64) <<< 63 := UInt64.toNat_inj.mp high
      have loWord : lo = 0 := UInt64.toNat_inj.mp low
      rw [hiWord, loWord]
      decide
    · have small := magnitude_lt other
      have word : hi.toInt64.toInt = hi.toNat := toInt_toInt64 (by omega)
      rw [← BitVec.toNat_inj, ofWords_toNat (by omega), word, high, low, Int.toNat_natCast]
      omega
  cases value
  rw [magnitude] at whole
  split at whole
  case isTrue negative =>
    rw [if_pos negative, neg, whole]
    exact congrArg Int64x64.mk (BitVec.neg_neg)
  case isFalse nonneg =>
    rw [if_neg nonneg]
    exact congrArg Int64x64.mk whole

/-- The characters of digits that are listed from the last place to the first. -/
def fractionBytes (digits : List Nat) : List UInt8 :=
  (digits.map digitByte).reverse

theorem mul_ten {low : Int64x64} (fraction : low.v.toNat < 2 ^ 64) :
    ∃ scaled, low.mul (ofInt 10) = some scaled ∧ scaled.v.toNat = 10 * low.v.toNat ∧
      scaled.getHigh.toInt = (10 * low.v.toNat / 2 ^ 64 : Nat) := by
  have ten : (ofInt 10).v.toNat = 10 * 2 ^ 64 := ofInt_toNat (n := 10) (by decide)
  have product : low.v.toNat * (10 * 2 ^ 64) / 2 ^ 64 = 10 * low.v.toNat := by omega
  have multiplied := mul_of_nonneg (x := low) (o := ofInt 10) (by omega) (by omega)
  rw [ten, product, if_pos (by omega)] at multiplied
  have value := toNat_ofNat_of_fits (n := 10 * low.v.toNat) (by omega)
  refine ⟨_, multiplied, value, ?_⟩
  rw [getHigh_of_nonneg (by rw [value]; omega), value]

theorem sub_high {x : Int64x64} (nonneg : x.v.toNat < 2 ^ 127) :
    (x.sub (ofInt x.getHigh.toInt)).v.toNat = x.v.toNat % 2 ^ 64 := by
  rw [getHigh_of_nonneg nonneg]
  have high := ofInt_toNat (n := x.v.toNat / 2 ^ 64) (by omega)
  rw [sub, BitVec.toNat_sub, high]
  omega

theorem Format.more_lt_limit {format : Format} {places : Nat} {low : Int64x64}
    (more : format.more places low) : places < format.limit := by
  rw [Format.more] at more
  rw [Format.limit]
  split at more
  case isTrue fixed =>
    rw [if_pos fixed]
    exact Nat.lt_of_lt_of_le (of_decide_eq_true more) (Nat.le_max_right 1 _)
  case isFalse default =>
    rw [if_neg default]
    exact of_decide_eq_true (Bool.and_eq_true_iff.mp more).2

/-- One round of the loop of `operator<<` prints one digit. -/
theorem streamDigits_step {format : Format} {places part : Nat} {low : Int64x64}
    (fits : part < 2 ^ 64) (left : low.v.toNat = (expand (2 ^ 64) places part).2)
    (fuel : Nat) (hi : List UInt8) : ∃ (digit : Int64) (low' : Int64x64),
      digit.toInt = (expand (2 ^ 64) (places + 1) part).1.headD 0 ∧
        low'.v.toNat = (expand (2 ^ 64) (places + 1) part).2 ∧
          streamDigits format (fuel + 1) places low
              (hi ++ fractionBytes (expand (2 ^ 64) places part).1) =
            let oss := hi ++ fractionBytes (expand (2 ^ 64) (places + 1) part).1
            if format.more (places + 1) low' then streamDigits format fuel (places + 1) low' oss
            else some (oss, digit, low') := by
  have fraction := expand_rest_lt fits places
  rw [← left] at fraction
  obtain ⟨scaled, multiplied, value, high⟩ := mul_ten fraction
  have nine : (9 : Int64).toInt = 9 := rfl
  have zero : (0 : Int64).toInt = 0 := rfl
  have inRange : 0 ≤ scaled.getHigh ∧ scaled.getHigh ≤ 9 := by
    rw [le_iff_toInt_le, le_iff_toInt_le, high]
    omega
  have printed : hi ++ fractionBytes (expand (2 ^ 64) places part).1 ++
      [digitByte scaled.getHigh.toInt.toNat] =
        hi ++ fractionBytes (expand (2 ^ 64) (places + 1) part).1 := by
    rw [append_assoc, high, left, Int.toNat_natCast]
    simp [fractionBytes, expand]
  refine ⟨scaled.getHigh, scaled.sub (ofInt scaled.getHigh.toInt), ?_, ?_, ?_⟩
  · rw [high, left]
    rfl
  · rw [sub_high (by omega), value, left]
    rfl
  · rw [streamDigits, multiplied, Option.bind_some, if_pos inRange, printed]

/-- The loop of `operator<<` never fails, and prints the digits of the fraction until there
should be no more. -/
theorem streamDigits_spec {format : Format} {fuel places part : Nat} {low : Int64x64}
    (fits : part < 2 ^ 64) (left : low.v.toNat = (expand (2 ^ 64) places part).2)
    (bounded : places < format.limit) (enough : format.limit ≤ places + fuel) (hi : List UInt8) :
    ∃ stop ≤ format.limit, ∃ (digit : Int64) (low' : Int64x64), digit.toInt = (expand (2 ^ 64) stop part).1.headD 0 ∧
        low'.v.toNat = (expand (2 ^ 64) stop part).2 ∧ format.more stop low' = false ∧
            streamDigits format fuel places low (hi ++ fractionBytes (expand (2 ^ 64) places part).1) =
              some (hi ++ fractionBytes (expand (2 ^ 64) stop part).1, digit, low') := by
  induction fuel generalizing places low with
  | zero => omega
  | succ fuel ih =>
    obtain ⟨digit, low', printed, rest, step⟩ :=
      @streamDigits_step format places part low fits left fuel hi
    rw [step]
    cases more : format.more (places + 1) low' with
    | true => exact ih rest (Format.more_lt_limit more) (by omega)
    | false => exact ⟨places + 1, bounded, digit, low', printed, rest, more, rfl⟩

theorem digitByte_succ : ∀ digit < 10, digitByte digit ≠ '.'.toUInt8 ∧ digitByte digit + 1 = digitByte (digit + 1) ∧
    ((digitByte digit + 1).toInt8 ≤ '9'.toUInt8.toInt8 ↔ digit + 1 ≤ 9) := by
  decide

/-- The walk over digits adds one to them, and ends before the point. -/
theorem walkCarry_eq {digits : List Nat} (decimal : ∀ digit ∈ digits, digit < 10)
    (kept : (increment digits).2 = false) (hi : List UInt8) :
    walkCarry (digits.map digitByte ++ hi) =
      ((increment digits).1.map digitByte ++ hi, false) := by
  induction digits with
  | nil => exact absurd kept (by decide)
  | cons digit digits ih =>
    obtain ⟨small, others⟩ := forall_mem_cons.mp decimal
    obtain ⟨point, next, carries⟩ := digitByte_succ digit small
    rw [map_cons, cons_append, walkCarry, if_neg point]
    rw [increment] at kept ⊢
    by_cases stays : digit + 1 ≤ 9
    · rw [if_pos (carries.mpr stays), if_pos stays, next]
      rfl
    · rw [if_neg stays] at kept
      rw [if_neg fun up => stays (carries.mp up), if_neg stays, ih others kept]
      rfl

theorem odd_digit {digit : Int64} {value : Nat} (same : digit.toInt = value) (small : value < 10) :
    digit % 2 = 1 ↔ value % 2 = 1 := by
  have word : digit = ofNat value := by
    rw [← toInt_inj, same, toInt_ofNat_of_lt (by omega)]
  have all : ∀ value < 10, ofNat value % 2 = 1 ↔ value % 2 = 1 := by decide
  rw [word]
  exact all value small

/-- The text is rounded as the digits are, without a carry into the integer. -/
theorem roundDigits_eq {places part : Nat} {digit nextDigit : Int64} (fits : part < 2 ^ 64)
    (enough : DecimalFraction.Enough (2 ^ 64) places part)
    (last : digit.toInt = (DecimalFraction.expand (2 ^ 64) places part).1.headD 0) (next : nextDigit.toInt =
      (10 * (DecimalFraction.expand (2 ^ 64) places part).2 / 2 ^ 64 : Nat)) (hi : List UInt8) :
    roundDigits (hi ++ fractionBytes (DecimalFraction.expand (2 ^ 64) places part).1) digit nextDigit =
      hi ++ fractionBytes (DecimalFraction.write (2 ^ 64) places part) := by
  have decimal := DecimalFraction.expand_digits fits places
  have five : (5 : Int64).toInt = 5 := rfl
  have small : (DecimalFraction.expand (2 ^ 64) places part).1.headD 0 < 10 := by
    cases digits : (DecimalFraction.expand (2 ^ 64) places part).1 with
    | nil => decide
    | cons head tail => exact decimal head (digits ▸ mem_cons_self)
  have rounds : nextDigit > 5 ∨ nextDigit = 5 ∧ digit % 2 = 1 ↔
      DecimalFraction.RoundsUp (2 ^ 64) (DecimalFraction.expand (2 ^ 64) places part).1
        (DecimalFraction.expand (2 ^ 64) places part).2 := by
    rw [DecimalFraction.RoundsUp, gt_iff_lt, lt_iff_toInt_lt, ← toInt_inj, next, five, odd_digit last small]
    omega
  simp only [roundDigits, DecimalFraction.write, rounds]
  split
  case isTrue up =>
    have kept := (DecimalFraction.increment_expand fits enough up).1
    rw [fractionBytes, reverse_append, reverse_reverse, walkCarry_eq decimal kept]
    simp [fractionBytes]
  case isFalse => rfl

/-- `operator<<` in the default format never fails. It prints the words of the magnitude,
the fraction in as many places as it takes to read it back. -/
theorem write_eq (precision : Nat) (value : Int64x64) : ∃ places ≤ 20,
    DecimalFraction.Enough (2 ^ 64) places (value.magnitude.toNat % 2 ^ 64) ∧
      write (defaultFormat precision) value =
        some (signByte value.isNegative :: (decimalBytes (absoluteWords value).1 ++ '.'.toUInt8 :: fractionBytes
            (DecimalFraction.write (2 ^ 64) places (value.magnitude.toNat % 2 ^ 64)))) := by
  have start := (absoluteWords_spec value).2
  have fits : value.magnitude.toNat % 2 ^ 64 < 2 ^ 64 := Nat.mod_lt _ (Nat.two_pow_pos 64)
  generalize value.magnitude.toNat % 2 ^ 64 = part at start fits ⊢
  obtain ⟨stop, bounded, digit, low, last, rest, done, loop⟩ :=
    @streamDigits_spec (defaultFormat precision) 20 0 part (absoluteWords value).2 fits start
      (show 0 < 20 by decide) (Nat.le_refl 20) (decimalBytes (absoluteWords value).1 ++ ['.'.toUInt8])
  have fraction := DecimalFraction.expand_rest_lt fits stop
  rw [← rest] at fraction
  have enough : DecimalFraction.Enough (2 ^ 64) stop part := by
    rw [DecimalFraction.Enough, ← rest]
    rcases Bool.and_eq_false_iff.mp done with zero | full
    · have none : low.getLow = 0 := by simpa using zero
      have value := getLow_toNat low
      rw [none, Nat.mod_eq_of_lt fraction] at value
      exact .inl value.symm
    · have full := of_decide_eq_false full
      exact .inr (Nat.le_trans (by norm_num)
        (Nat.mul_le_mul_left 5 (Nat.pow_le_pow_right (by decide) (Nat.le_of_not_lt full))))
  obtain ⟨scaled, multiplied, -, next⟩ := mul_ten fraction
  rw [rest] at next
  refine ⟨stop, bounded, enough, ?_⟩
  have rounded := roundDigits_eq fits enough last next (decimalBytes (absoluteWords value).1 ++ ['.'.toUInt8])
  rw [append_assoc, singleton_append] at rounded
  have printed : streamDigits (defaultFormat precision) (defaultFormat precision).limit 0
      (absoluteWords value).2 (decimalBytes (absoluteWords value).1 ++ ['.'.toUInt8]) = _ :=
    (congrArg _ (append_nil _).symm).trans loop
  simp only [write, printed, Option.bind_some, multiplied, Option.map_some, append_assoc, singleton_append, rounded]

end Ns3.Core.Int64x64
