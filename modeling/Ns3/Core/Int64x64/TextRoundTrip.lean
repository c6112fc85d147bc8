import Mathlib.Data.List.TakeWhile
import Ns3.Core.Int64x64.Text

/-!
# What is written is read back

The text of a number is a sign and the digits of its magnitude. The integer is read exactly.
The fraction is printed with one rounding error and read with one for each digit, and all of
them together stay below the last bit.
-/

namespace Ns3.Core.Int64x64

open Ns3.Semantics List Option Nat DecimalFraction

/-- A text of digits only. -/
def AllDigits (bytes : List UInt8) : Prop :=
  ∀ byte ∈ bytes, ∃ digit < 10, byte = digitByte digit

theorem digitValue_digitByte : ∀ digit < 10, digitValue (digitByte digit) = digit := by
  decide

/-- A digit is no character that the reader looks for. -/
theorem digitByte_ne : ∀ digit < 10, isSpace (digitByte digit) = false ∧ digitByte digit ≠ 0 ∧
    digitByte digit ≠ '.'.toUInt8 ∧ digitByte digit ≠ '-'.toUInt8 := by
  decide

theorem AllDigits.ne {bytes : List UInt8} (digits : AllDigits bytes) {byte : UInt8} (mem : byte ∈ bytes) :
    isSpace byte = false ∧ byte ≠ 0 ∧ byte ≠ '.'.toUInt8 ∧ byte ≠ '-'.toUInt8 := by
  obtain ⟨digit, small, rfl⟩ := digits byte mem
  exact digitByte_ne digit small

variable {digits : List Nat}

theorem fractionBytes_digits (decimal : ∀ digit ∈ digits, digit < 10) : AllDigits (fractionBytes digits) := by
  intro byte mem
  obtain ⟨digit, listed, rfl⟩ := List.mem_map.mp (mem_reverse.mp mem)
  exact ⟨digit, decimal digit listed, rfl⟩

theorem decimalBytes_digits (value : UInt64) : AllDigits (decimalBytes value) := by
  rw [decimalBytes]
  split
  case isTrue => exact fun byte mem => ⟨0, by decide, mem_singleton.mp mem⟩
  case isFalse => exact fractionBytes_digits fun digit => digits_lt_base (by decide)

theorem readHiDigits_eq (decimal : ∀ digit ∈ digits, digit < 10) :
    readHiDigits (fractionBytes digits) = UInt64.ofNat (ofDigits 10 digits) := by
  have kept : (fractionBytes digits).takeWhile (· ≠ 0) = fractionBytes digits :=
    takeWhile_eq_self_iff.mpr fun _ mem =>
      decide_eq_true ((fractionBytes_digits decimal).ne mem).2.1
  rw [readHiDigits, kept, fractionBytes, foldl_reverse]
  clear kept
  induction digits with
  | nil => rfl
  | cons digit digits ih =>
    obtain ⟨small, others⟩ := forall_mem_cons.mp decimal
    have word : ∀ digit < 10, UInt64.ofInt (digit : Nat) = UInt64.ofNat digit := by decide
    rw [map_cons, foldr_cons, ih others, digitValue_digitByte _ small,
      word digit small, ofDigits_cons, UInt64.ofNat_add, UInt64.ofNat_mul, UInt64.mul_comm,
      UInt64.add_comm]
    rfl

theorem readHiDigits_decimalBytes (value : UInt64) : readHiDigits (decimalBytes value) = value := by
  rw [decimalBytes]
  split
  case isTrue zero => rw [zero]; rfl
  case isFalse =>
    have digits : readHiDigits (fractionBytes (digits 10 value.toNat)) = _ :=
      readHiDigits_eq fun digit => digits_lt_base (by decide)
    rwa [ofDigits_digits, UInt64.ofNat_toNat] at digits

theorem div_ten {low : Int64x64} {digit : Nat} (bounded : low.v.toNat ≤ 2 ^ 64) (small : digit < 10) :
    ∃ next, ((low.add (ofInt digit)).add (ofWords 0 5)).div (ofInt 10) = some next ∧
      next.v.toNat = prepend (2 ^ 64) low.v.toNat digit := by
  have ten : (ofInt 10).v.toNat = 10 * 2 ^ 64 := ofInt_toNat (n := 10) (by decide)
  have five : (ofWords 0 5).v.toNat = 5 := by decide
  have whole := ofInt_toNat (n := digit) (by omega)
  have sum : ((low.add (ofInt digit)).add (ofWords 0 5)).v.toNat =
      low.v.toNat + digit * 2 ^ 64 + 5 := by
    rw [add, BitVec.toNat_add, add, BitVec.toNat_add, whole, five]
    omega
  generalize (low.add (ofInt digit)).add (ofWords 0 5) = total at sum ⊢
  obtain ⟨sign, magnitude⟩ := magnitude_of_nonneg (x := total) (by omega)
  obtain ⟨tenSign, tenMagnitude⟩ := magnitude_of_nonneg (x := ofInt 10) (by omega)
  have quotient : total.v.toNat * 2 ^ 64 / (10 * 2 ^ 64) = total.v.toNat / 10 :=
    Nat.mul_div_mul_right _ _ (Nat.two_pow_pos 64)
  have divided := udiv_eq (a := total.v) (b := (ofInt 10).v)
    (.inr (by rw [ten]; exact Nat.dvd_mul_left _ _)) (by omega) (by rw [ten, quotient]; omega)
  rw [ten, quotient] at divided
  have value := toNat_ofNat_of_fits (n := total.v.toNat / 10) (by omega)
  refine ⟨⟨BitVec.ofNat 128 (total.v.toNat / 10)⟩, ?_, ?_⟩
  · rw [div, magnitude, tenMagnitude, divided, sign, tenSign]
    rfl
  · rw [value, sum, prepend]

theorem accumulateDigits_eq (decimal : ∀ digit ∈ digits, digit < 10)
    {low : Int64x64} (bounded : low.v.toNat ≤ 2 ^ 64) :
    ∃ result, accumulateDigits (digits.map digitByte) low = some result ∧
      result.v.toNat = digits.foldl (prepend (2 ^ 64)) low.v.toNat := by
  induction digits generalizing low with
  | nil => exact ⟨low, rfl, rfl⟩
  | cons digit digits ih =>
    obtain ⟨small, others⟩ := forall_mem_cons.mp decimal
    obtain ⟨next, divided, value⟩ := div_ten bounded small
    have nextBounded := prepend_le bounded small
    rw [← value] at nextBounded
    obtain ⟨result, loop, read⟩ := ih others nextBounded
    refine ⟨result, ?_, ?_⟩
    · rw [map_cons, accumulateDigits, digitValue_digitByte _ small, if_pos (by omega), divided, bind_some, loop]
    · rw [read, value, foldl_cons]

theorem readLoDigits_eq (decimal : ∀ digit ∈ digits, digit < 10) : readLoDigits (fractionBytes digits) =
    some (UInt64.ofNat (DecimalFraction.read (2 ^ 64) digits)) := by
  have zero : (ofInt 0).v.toNat = 0 := by decide
  obtain ⟨result, loop, value⟩ := accumulateDigits_eq decimal (zero.trans_le (zero_le _))
  rw [readLoDigits, fractionBytes, reverse_reverse, loop, map_some, Option.some.injEq,
    ← UInt64.toNat_inj, getLow_toNat, value, zero, UInt64.toNat_ofNat']
  rfl

theorem find_eq_some {before middle : List UInt8} {byte : UInt8} (absent : byte ∉ middle) (after : List UInt8) :
    find (before ++ (middle ++ byte :: after)) byte (some before.length) = some (before.length + middle.length) := by
  have none : middle.findIdx? (· == byte) = none :=
    findIdx?_eq_none_iff.mpr fun other mem =>
      beq_false_of_ne fun same => absent (same ▸ mem)
  rw [find, bind_some, drop_left, findIdx?_append, none]
  simp [findIdx?_cons]

theorem find_eq_none {str : List UInt8} {byte : UInt8} (absent : byte ∉ str) (cur : Option Nat) :
    find str byte cur = none := by
  cases cur with
  | none => rfl
  | some cur =>
    have none : (str.drop cur).findIdx? (· == byte) = none :=
      findIdx?_eq_none_iff.mpr fun other mem =>
        beq_false_of_ne fun same => absent (same ▸ mem_of_mem_drop mem)
    rw [find, bind_some, none]
    rfl

theorem readString_eq {str : List UInt8} (graph : ∀ byte ∈ str, isSpace byte = false) :
    readString str = (str, []) := by
  have start : str.dropWhile isSpace = str := by
    cases str with
    | nil => rfl
    | cons byte rest =>
      rw [dropWhile_cons_of_neg]
      rw [graph byte mem_cons_self]
      exact Bool.false_ne_true
  have all : ∀ byte ∈ str, !isSpace byte := fun byte mem => by rw [graph byte mem]; rfl
  rw [readString, start, takeWhile_eq_self_iff.mpr all, dropWhile_eq_nil_iff.mpr all]

theorem readSign_eq {number : List UInt8} (pos : '-'.toUInt8 ∉ number) (negative : Bool) :
    readSign (signByte negative :: number) = (negative, some 1) := by
  have first : (signByte negative :: number).findIdx? (· ≠ ' '.toUInt8) = some 0 := by
    cases negative <;> rfl
  have start : ∀ byte, find (byte :: number) byte (some 0) = some 0 := fun byte =>
    @find_eq_some [] [] byte not_mem_nil number
  rw [readSign, first]
  cases negative with
  | true => rw [signByte, if_pos rfl, start]
  | false =>
    have plus : signByte false = '+'.toUInt8 := rfl
    have absent : '-'.toUInt8 ∉ '+'.toUInt8 :: number := fun mem =>
      pos ((mem_cons.mp mem).resolve_left (by decide))
    rw [plus, find_eq_none absent, start]

theorem readWords_eq {hi : List UInt8} (digits : AllDigits hi) (sign : UInt8) (lo : List UInt8) :
    readWords (sign :: (hi ++ '.'.toUInt8 :: lo)) (some 1) =
      (readLoDigits lo).map fun low => (readHiDigits hi, low) := by
  have point := @find_eq_some [sign] hi '.'.toUInt8 (fun mem => (digits.ne mem).2.2.1 rfl) lo
  rw [singleton_append, length_singleton] at point
  have before : ((sign :: (hi ++ '.'.toUInt8 :: lo)).drop 1).take (1 + hi.length - 1) = hi := by
    rw [drop_one, tail_cons, Nat.add_sub_cancel_left, take_left]
  have after : (sign :: (hi ++ '.'.toUInt8 :: lo)).drop (1 + hi.length + 1) = lo := by
    rw [Nat.add_comm 1, drop_succ_cons, drop_append, drop_of_length_le (by omega), Nat.add_sub_cancel_left]
    rfl
  rw [readWords, point]
  simp only [before, after]

theorem read_eq {hi lo : List UInt8} (hiDigits : AllDigits hi) (loDigits : AllDigits lo) (negative : Bool) :
    read (signByte negative :: (hi ++ '.'.toUInt8 :: lo)) = (readLoDigits lo).map fun low =>
      (if negative then (ofWords (readHiDigits hi).toInt64 low).neg
        else ofWords (readHiDigits hi).toInt64 low, []) := by
  have graph : ∀ byte ∈ signByte negative :: (hi ++ '.'.toUInt8 :: lo), isSpace byte = false := by
    intro byte mem
    rcases mem_cons.mp mem with rfl | mem
    · cases negative <;> decide
    · rcases mem_append.mp mem with inHi | mem
      · exact (hiDigits.ne inHi).1
      · rcases mem_cons.mp mem with rfl | inLo
        · decide
        · exact (loDigits.ne inLo).1
  have pos : '-'.toUInt8 ∉ hi ++ '.'.toUInt8 :: lo := by
    intro mem
    rcases mem_append.mp mem with inHi | mem
    · exact (hiDigits.ne inHi).2.2.2 rfl
    · rcases mem_cons.mp mem with point | inLo
      · exact absurd point (by decide)
      · exact (loDigits.ne inLo).2.2.2 rfl
  rw [read, readString_eq graph]
  simp only [readSign_eq pos, readWords_eq hiDigits, Option.map_map]
  rfl

/-- The digits of a text are those of a value: its integer part and its fraction read as
the words of the magnitude, and the fraction has 20 places at most. -/
def KeepsWords (value : Int64x64) (text : List UInt8) : Prop :=
  ∃ hi lo, text = signByte value.isNegative :: (hi ++ '.'.toUInt8 :: lo) ∧
    (readHiDigits hi).toNat = value.magnitude.toNat / 2 ^ 64 ∧
      readLoDigits lo = some (UInt64.ofNat (value.magnitude.toNat % 2 ^ 64)) ∧ lo.length ≤ 20

/-- Every value is written in the default format and read back. -/
theorem reads_back (precision : Nat) (value : Int64x64) :
    ∃ text, write (defaultFormat precision) value = some text ∧ read text = some (value, []) ∧
      KeepsWords value text := by
  obtain ⟨places, bounded, enough, written⟩ := write_eq precision value
  have fits : value.magnitude.toNat % 2 ^ 64 < 2 ^ 64 := Nat.mod_lt _ (Nat.two_pow_pos 64)
  have decimal := DecimalFraction.write_digits fits places
  have high : (readHiDigits (decimalBytes (absoluteWords value).1)).toNat = value.magnitude.toNat / 2 ^ 64 := by
    rw [readHiDigits_decimalBytes]
    exact (absoluteWords_spec value).1
  have low := readLoDigits_eq decimal
  rw [DecimalFraction.read_write fits enough] at low
  have word := UInt64.toNat_ofNat_of_lt' fits
  refine ⟨_, written, ?_, _, _, rfl, high, low, ?_⟩
  · rw [read_eq (decimalBytes_digits _) (fractionBytes_digits decimal), low, map_some, ofWords_magnitude high word]
  · rw [fractionBytes, length_reverse, length_map, DecimalFraction.write_length]
    exact bounded

end Ns3.Core.Int64x64
