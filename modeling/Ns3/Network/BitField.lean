import Mathlib.Data.Nat.Bitwise

/-!
# Fields of bits

A mask takes a field out of a word, and fields at different places of a word are joined by OR.
-/

namespace Ns3.Network.BitField

open Nat

/-- A mask of `bits` ones at `place` takes out the digits there. -/
theorem and_field (word bits place : Nat) :
    word &&& (2 ^ bits - 1) * 2 ^ place = word / 2 ^ place % 2 ^ bits * 2 ^ place := by
  apply eq_of_testBit_eq
  intro position
  simp only [testBit_and, testBit_mul_two_pow, testBit_two_pow_sub_one, testBit_mod_two_pow, testBit_div_two_pow]
  by_cases behind : place ≤ position
  · simp [behind, Bool.and_comm]
  · simp [behind]

/-- Below an aligned field nothing is overwritten. -/
theorem or_eq_add {high low : Nat} (place : Nat) (aligned : high % 2 ^ place = 0) (below : low < 2 ^ place) :
    high ||| low = high + low := by
  have isHigh : high = (high / 2 ^ place) <<< place := by
    rw [Nat.shiftLeft_eq, Nat.div_mul_cancel (Nat.dvd_of_mod_eq_zero aligned)]
  rw [isHigh, Nat.shiftLeft_add_eq_or_of_lt below]

variable (word : Nat)

theorem and_0x01 : word &&& 0x01 = word % 2 :=
  and_one_is_mod word

theorem and_0x03 : word &&& 0x03 = word % 4 := by
  simpa using and_field word 2 0

theorem and_0x07 : word &&& 0x07 = word % 8 := by
  simpa using and_field word 3 0

theorem and_0x0F : word &&& 0x0F = word % 16 := by
  simpa using and_field word 4 0

theorem and_0x1F : word &&& 0x1F = word % 32 := by
  simpa using and_field word 5 0

theorem and_0x7F : word &&& 0x7F = word % 128 := by
  simpa using and_field word 7 0

theorem and_0xFF : word &&& 0xFF = word % 256 := by
  simpa using and_field word 8 0

theorem and_0x02 : word &&& 0x02 = word / 2 % 2 * 2 := by
  simpa using and_field word 1 1

theorem and_0x04 : word &&& 0x04 = word / 4 % 2 * 4 := by
  simpa using and_field word 1 2

theorem and_0x08 : word &&& 0x08 = word / 8 % 2 * 8 := by
  simpa using and_field word 1 3

theorem and_0x18 : word &&& 0x18 = word / 8 % 4 * 8 := by
  simpa using and_field word 2 3

theorem and_0x20 : word &&& 0x20 = word / 32 % 2 * 32 := by
  simpa using and_field word 1 5

theorem and_0x40 : word &&& 0x40 = word / 64 % 2 * 64 := by
  simpa using and_field word 1 6

theorem and_0x70 : word &&& 0x70 = word / 16 % 8 * 16 := by
  simpa using and_field word 3 4

theorem and_0x80 : word &&& 0x80 = word / 128 % 2 * 128 := by
  simpa using and_field word 1 7

theorem and_0xF0 : word &&& 0xF0 = word / 16 % 16 * 16 := by
  simpa using and_field word 4 4

theorem and_0xF8 : word &&& 0xF8 = word / 8 % 32 * 8 := by
  simpa using and_field word 5 3

theorem and_0xFC : word &&& 0xFC = word / 4 % 64 * 4 := by
  simpa using and_field word 6 2

theorem and_0x0FFF : word &&& 0x0FFF = word % 4096 := by
  simpa using and_field word 12 0

theorem and_0xFFF0 : word &&& 0xFFF0 = word / 16 % 4096 * 16 := by
  simpa using and_field word 12 4

theorem and_0xF000 : word &&& 0xF000 = word / 4096 % 16 * 4096 := by
  simpa using and_field word 4 12

end Ns3.Network.BitField
