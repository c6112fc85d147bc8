import Mathlib.Data.Nat.Digits.Lemmas

/-!
# Decimal fractions

A fraction counts parts of a whole. It is written one decimal digit at a time, the last one
rounded, and read from the last digit back to the first, rounded at each digit. The two
roundings together stay below one part when there are enough digits.

Digits are listed from the last place to the first.
-/

namespace Ns3.Semantics.DecimalFraction

open List Nat

/-- The digits in some places, and what is left of the fraction after them. -/
def expand (whole : Nat) : Nat -> Nat -> List Nat × Nat
  | 0, part => ([], part)
  | places + 1, part =>
    let (digits, rest) := expand whole places part
    (10 * rest / whole :: digits, 10 * rest % whole)

/-- Add one in the last place. The carry out of the first place comes along. -/
def increment : List Nat -> List Nat × Bool
  | [] => ([], true)
  | digit :: digits =>
    if digit + 1 ≤ 9 then
      ((digit + 1) :: digits, false)
    else
      let (digits, carry) := increment digits
      (0 :: digits, carry)

/-- Whether the last digit is rounded up, by the digit after it. -/
def RoundsUp (whole : Nat) (digits : List Nat) (rest : Nat) : Prop :=
  5 < 10 * rest / whole ∨ 10 * rest / whole = 5 ∧ digits.headD 0 % 2 = 1

instance (whole : Nat) (digits : List Nat) (rest : Nat) : Decidable (RoundsUp whole digits rest) :=
  inferInstanceAs (Decidable (_ ∨ _))

/-- The rounded digits of a fraction. -/
def write (whole places part : Nat) : List Nat :=
  let (digits, rest) := expand whole places part
  if RoundsUp whole digits rest then (increment digits).1 else digits

/-- The fraction is the value of its digits and the rest. -/
theorem expand_value (whole places part : Nat) :
    whole * ofDigits 10 (expand whole places part).1 + (expand whole places part).2 = 10 ^ places * part := by
  induction places with
  | zero => simp [expand]
  | succ places ih =>
    have split := div_add_mod (10 * (expand whole places part).2) whole
    rw [expand, ofDigits_cons, pow_succ']
    linarith

variable {whole part : Nat}

theorem expand_rest_lt (fits : part < whole) (places : Nat) : (expand whole places part).2 < whole := by
  cases places with
  | zero => exact fits
  | succ places => exact mod_lt _ (zero_lt_of_lt fits)

theorem expand_digits (fits : part < whole) (places : Nat) : ∀ digit ∈ (expand whole places part).1, digit < 10 := by
  induction places with
  | zero => simp [expand]
  | succ places ih =>
    rw [expand, forall_mem_cons]
    refine ⟨?_, ih⟩
    rw [div_lt_iff_lt_mul (zero_lt_of_lt fits)]
    exact mul_lt_mul_of_pos_left (expand_rest_lt fits places) (by decide)

theorem expand_length (whole places part : Nat) : (expand whole places part).1.length = places := by
  induction places with
  | zero => rfl
  | succ places ih => rw [expand, length_cons, ih]

theorem increment_length (digits : List Nat) : (increment digits).1.length = digits.length := by
  induction digits with
  | nil => rfl
  | cons digit digits ih =>
    rw [increment]
    split
    · rfl
    · rw [length_cons, length_cons, ih]

variable {digits : List Nat}

section

variable (decimal : ∀ digit ∈ digits, digit < 10)
include decimal

theorem increment_digits : ∀ digit ∈ (increment digits).1, digit < 10 := by
  induction digits with
  | nil => simp [increment]
  | cons digit digits ih =>
    obtain ⟨-, others⟩ := forall_mem_cons.mp decimal
    rw [increment]
    split
    · exact forall_mem_cons.mpr ⟨by omega, others⟩
    · exact forall_mem_cons.mpr ⟨by decide, ih others⟩

theorem increment_value :
    ofDigits 10 (increment digits).1 + (if (increment digits).2 then 10 ^ digits.length else 0) =
      ofDigits 10 digits + 1 := by
  induction digits with
  | nil => rfl
  | cons digit digits ih =>
    obtain ⟨small, others⟩ := forall_mem_cons.mp decimal
    have value := ih others
    rw [increment]
    split
    · rw [if_neg Bool.false_ne_true, ofDigits_cons, ofDigits_cons]
      omega
    · have nine : digit = 9 := by omega
      rw [ofDigits_cons, ofDigits_cons, length_cons, pow_succ', nine]
      cases carry : (increment digits).2 with
      | true =>
        rw [carry, if_pos rfl] at value
        rw [if_pos rfl]
        omega
      | false =>
        rw [carry, if_neg Bool.false_ne_true] at value
        rw [if_neg Bool.false_ne_true]
        omega

/-- There is no carry out of the first place while the digits are not all nines. -/
theorem increment_of_lt
    (room : ofDigits 10 digits + 1 < 10 ^ digits.length) :
    (increment digits).2 = false ∧ ofDigits 10 (increment digits).1 = ofDigits 10 digits + 1 := by
  have value := increment_value decimal
  cases carry : (increment digits).2 with
  | true =>
    rw [carry, if_pos rfl] at value
    omega
  | false =>
    rw [carry, if_neg Bool.false_ne_true] at value
    exact ⟨rfl, value⟩

end

theorem write_digits (fits : part < whole) (places : Nat) : ∀ digit ∈ write whole places part, digit < 10 := by
  have decimal := expand_digits fits places
  simp only [write]
  split
  · exact increment_digits decimal
  · exact decimal

theorem write_length (whole places part : Nat) : (write whole places part).length = places := by
  have length := expand_length whole places part
  simp only [write]
  split
  · rw [increment_length, length]
  · exact length

/-- Read one more digit in front of a fraction. -/
def prepend (whole part digit : Nat) : Nat :=
  (part + digit * whole + 5) / 10

/-- Read digits, the last one first. -/
def read (whole : Nat) (digits : List Nat) : Nat :=
  digits.foldl (prepend whole) 0

/-- Each digit adds at most half a part to the error, and divides the error by ten. -/
theorem prepend_near (whole part digit : Nat) : 10 * prepend whole part digit ≤ part + digit * whole + 5 ∧
    part + digit * whole ≤ 10 * prepend whole part digit + 4 := by
  rw [prepend]
  omega

/-- At most a whole is read, which is one part too many. -/
theorem prepend_le {digit : Nat} (bounded : part ≤ whole) (decimal : digit < 10) :
    prepend whole part digit ≤ whole := by
  have scaled := mul_le_mul_right whole (le_of_lt_succ decimal)
  rw [prepend]
  omega

/-- The error of all digits together, in ninths of a part. -/
theorem read_near (whole : Nat) (digits : List Nat) : 9 * (10 ^ digits.length * read whole digits) + 5 ≤
      9 * (whole * ofDigits 10 digits) + 5 * 10 ^ digits.length ∧
    9 * (whole * ofDigits 10 digits) + 4 ≤
      9 * (10 ^ digits.length * read whole digits) + 4 * 10 ^ digits.length := by
  induction digits using reverseRecOn with
  | nil => simp [read]
  | append_singleton digits digit ih =>
    have step : read whole (digits ++ [digit]) = prepend whole (read whole digits) digit := by
      rw [read, foldl_append]
      rfl
    obtain ⟨less, more⟩ := prepend_near whole (read whole digits) digit
    rw [step, length_append, length_singleton, ofDigits_append, ofDigits_singleton, pow_succ]
    generalize prepend whole (read whole digits) digit = next at less more ⊢
    have scaledLess := mul_le_mul_left (10 ^ digits.length) less
    have scaledMore := mul_le_mul_left (10 ^ digits.length) more
    constructor <;> linarith

/-- Digits near enough to a fraction read as the fraction. -/
theorem read_eq_of_near (less : 9 * (10 ^ digits.length * part) ≤
      9 * (whole * ofDigits 10 digits) + 5 * 10 ^ digits.length)
    (more : 9 * (whole * ofDigits 10 digits) ≤ 9 * (10 ^ digits.length * part) + 4 * 10 ^ digits.length) :
    read whole digits = part := by
  obtain ⟨below, above⟩ := read_near whole digits
  generalize read whole digits = result at below above ⊢
  have scale := pow_pos (n := digits.length) (show 0 < 10 by decide)
  rcases lt_trichotomy result part with small | same | large
  · have gap := mul_le_mul_left (10 ^ digits.length) (succ_le_of_lt small)
    linarith
  · exact same
  · have gap := mul_le_mul_left (10 ^ digits.length) (succ_le_of_lt large)
    linarith

/-- Whether some places are enough for a fraction: either they hold it exactly, or a part
is clearly larger than the last place. -/
def Enough (whole places part : Nat) : Prop :=
  (expand whole places part).2 = 0 ∨ 6 * whole ≤ 5 * 10 ^ places

/-- A fraction with enough places is never rounded up to a whole. -/
theorem increment_expand {places : Nat} (fits : part < whole) (enough : Enough whole places part)
    (up : RoundsUp whole (expand whole places part).1 (expand whole places part).2) :
    (increment (expand whole places part).1).2 = false ∧ Nat.ofDigits 10 (increment (expand whole places part).1).1 =
        Nat.ofDigits 10 (expand whole places part).1 + 1 := by
  refine increment_of_lt (expand_digits fits places) ?_
  rw [expand_length]
  rcases enough with exact | fine
  · simp [RoundsUp, exact] at up
  · have value := expand_value whole places part
    have scaled := Nat.mul_le_mul_left (10 ^ places) (Nat.succ_le_of_lt fits)
    refine Nat.lt_of_not_le fun nines => ?_
    have reached := Nat.mul_le_mul_left whole nines
    have scale := Nat.pow_pos (n := places) (show 0 < 10 by decide)
    linarith

/-- A fraction written with enough places reads as itself. -/
theorem read_write {places : Nat} (fits : part < whole) (enough : Enough whole places part) :
    read whole (write whole places part) = part := by
  have value := expand_value whole places part
  have restFits := expand_rest_lt fits places
  have pos : 0 < whole := Nat.zero_lt_of_lt fits
  simp only [write]
  by_cases up : RoundsUp whole (expand whole places part).1 (expand whole places part).2
  · obtain ⟨-, incremented⟩ := increment_expand fits enough up
    have half : 5 * whole ≤ 10 * (expand whole places part).2 := by
      rw [← Nat.le_div_iff_mul_le pos]
      rcases up with more | ⟨tie, -⟩ <;> omega
    have fine : 6 * whole ≤ 5 * 10 ^ places := enough.resolve_left fun exact => by
      rw [exact] at half
      omega
    rw [if_pos up]
    refine read_eq_of_near ?_ ?_ <;> rw [increment_length, expand_length, incremented] <;> linarith
  · have under : 10 * (expand whole places part).2 < 6 * whole := by
      rw [← Nat.div_lt_iff_lt_mul pos]
      exact Nat.lt_succ_of_le (Nat.le_of_not_lt fun more => up (.inl more))
    have scale := Nat.zero_le (10 ^ places)
    rw [if_neg up]
    refine read_eq_of_near ?_ ?_ <;> rw [expand_length]
    · rcases enough with exact | fine
      · rw [exact] at value
        linarith
      · linarith
    · linarith

end Ns3.Semantics.DecimalFraction
