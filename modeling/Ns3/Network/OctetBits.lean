import Mathlib.Data.Nat.Bitwise
import Mathlib.Data.List.Basic

/-!
# The bits of octets

An octet as its bits, the highest one first, and a bitset as its bits from a position down.
-/

namespace Ns3.Network

open List

/-- A bit of an octet, counted from the highest one. -/
def octetBit (octet : UInt8) (place : Nat) : Bool :=
  octet.toNat.testBit (7 - place)

def octetBits (octet : UInt8) : List Bool :=
  (range 8).map (octetBit octet)

/-- The bits of a bitset below a position, the highest one first. -/
def bitsBelow {size : Nat} (data : BitVec size) : Nat -> List Bool
  | 0 => []
  | count + 1 => data.getLsbD count :: bitsBelow data count

variable {octet other : UInt8} {place count size : Nat} {bit : Bool} {data further : BitVec size}

@[simp] theorem length_octetBits (octet : UInt8) : (octetBits octet).length = 8 := rfl

@[simp] theorem length_bitsBelow (data : BitVec size) (count : Nat) : (bitsBelow data count).length = count := by
  induction count with
  | zero => rfl
  | succ count ih => rw [bitsBelow, length_cons, ih]

theorem length_flatMap_octetBits (octets : List UInt8) : (octets.flatMap octetBits).length = 8 * octets.length := by
  induction octets with
  | nil => rfl
  | cons octet octets ih =>
    rw [flatMap_cons, length_append, length_octetBits, ih, length_cons]
    omega

theorem getElem_octetBits (below : place < (octetBits octet).length) :
    (octetBits octet)[place] = octetBit octet place := by
  simp [octetBits]

theorem octetBits_inj (same : octetBits octet = octetBits other) : octet = other := by
  apply UInt8.toNat_inj.mp
  apply Nat.eq_of_testBit_eq
  intro position
  by_cases inside : position < 8
  · have here : octetBit octet (7 - position) = octetBit other (7 - position) := by
      rw [← getElem_octetBits (by simp; omega), ← getElem_octetBits (by simp; omega)]
      simp only [same]
    unfold octetBit at here
    rwa [show 7 - (7 - position) = position by omega] at here
  · have bound : 2 ^ 8 ≤ 2 ^ position := Nat.pow_le_pow_right (by omega) (by omega)
    rw [Nat.testBit_lt_two_pow (lt_of_lt_of_le (UInt8.toNat_lt octet) bound),
      Nat.testBit_lt_two_pow (lt_of_lt_of_le (UInt8.toNat_lt other) bound)]

theorem toNat_mask (below : place < 8) : ((0x80 : UInt8) >>> UInt8.ofNat place).toNat = 2 ^ (7 - place) := by
  revert place
  decide

theorem octetBit_mask (below : place < 8) {position : Nat} (inside : position < 8) :
    octetBit (0x80 >>> UInt8.ofNat place) position = decide (position = place) := by
  rw [octetBit, toNat_mask below, Nat.testBit_two_pow]
  apply decide_eq_decide.mpr
  omega

theorem octetBits_or_mask (below : place < 8) (octet : UInt8) (bit : Bool) :
    octetBits (octet ||| if bit then 0x80 >>> UInt8.ofNat place else 0) =
      (octetBits octet).set place (octetBit octet place || bit) := by
  apply ext_getElem
  · simp
  · intro position left right
    have inside : position < 8 := left
    rw [getElem_octetBits, getElem_set, getElem_octetBits, octetBit, UInt8.toNat_or, Nat.testBit_or]
    cases bit with
    | false =>
      rw [if_neg Bool.false_ne_true, UInt8.toNat_zero, Nat.zero_testBit, Bool.or_false, Bool.or_false]
      split
      · rename_i same
        rw [same]
        rfl
      · rfl
    | true =>
      rw [if_pos rfl, show ((0x80 : UInt8) >>> UInt8.ofNat place).toNat.testBit (7 - position) = _ from
        octetBit_mask below inside]
      by_cases same : place = position
      · simp [same]
      · simp [same, Ne.symm same, octetBit]

theorem and_mask_ne_zero (below : place < 8) (octet : UInt8) :
    decide (octet &&& 0x80 >>> UInt8.ofNat place ≠ 0) = octetBit octet place := by
  have masked : (octet &&& 0x80 >>> UInt8.ofNat place).toNat = octet.toNat &&& 2 ^ (7 - place) := by
    rw [UInt8.toNat_and, toNat_mask below]
  have zero : (octet &&& 0x80 >>> UInt8.ofNat place = 0) ↔ octetBit octet place = false := by
    rw [← UInt8.toNat_inj, masked, UInt8.toNat_zero, Nat.and_two_pow, octetBit]
    cases octet.toNat.testBit (7 - place) <;> simp
  by_cases isSet : octetBit octet place = true
  · rw [isSet, decide_eq_true_iff]
    intro none
    rw [zero.mp none] at isSet
    cases isSet
  · have clear := Bool.eq_false_iff.mpr isSet
    rw [clear, decide_eq_false_iff_not, not_not]
    exact zero.mpr clear

theorem octetBits_shiftLeft (below : count < 8) (octet : UInt8) :
    octetBits (octet <<< UInt8.ofNat count) = (octetBits octet).drop count ++ replicate count false := by
  apply ext_getElem
  · rw [length_append, length_drop, length_replicate, length_octetBits, length_octetBits]
    omega
  · intro position left right
    have inside : position < 8 := left
    have shift : (UInt8.ofNat count).toNat % 8 = count := by
      rw [UInt8.toNat_ofNat']
      omega
    rw [getElem_octetBits, octetBit, UInt8.toNat_shiftLeft, shift, Nat.testBit_mod_two_pow, Nat.testBit_shiftLeft]
    by_cases early : position < 8 - count
    · rw [getElem_append_left (by simpa using early), getElem_drop, getElem_octetBits, octetBit,
        show 7 - position - count = 7 - (count + position) by omega]
      simp only [show 7 - position < 8 by omega, show 7 - position ≥ count by omega, decide_true, Bool.true_and]
    · rw [getElem_append_right (by simpa using early), getElem_replicate]
      simp only [show ¬7 - position ≥ count by omega, decide_false, Bool.false_and, Bool.and_false]

theorem getElem_bitsBelow (below : place < (bitsBelow data count).length) :
    (bitsBelow data count)[place] = data.getLsbD (count - 1 - place) := by
  induction count generalizing place with
  | zero => exact absurd below (Nat.not_lt_zero place)
  | succ count ih =>
    cases place with
    | zero => rfl
    | succ place =>
      simp only [bitsBelow, getElem_cons_succ]
      rw [ih]
      congr 1
      omega

theorem bitsBelow_inj (same : bitsBelow data size = bitsBelow further size) : data = further := by
  apply BitVec.eq_of_getLsbD_eq
  intro position inside
  have here := @getElem_bitsBelow (size - 1 - position) size size data (by simpa using by omega)
  have there := @getElem_bitsBelow (size - 1 - position) size size further (by simpa using by omega)
  rw [show size - 1 - (size - 1 - position) = position by omega] at here there
  rw [← here, ← there]
  simp only [same]

theorem bitsBelow_add (data : BitVec size) (low high : Nat) :
    bitsBelow data (low + high) = (bitsBelow data (low + high)).take high ++ bitsBelow data low := by
  conv_lhs => rw [← take_append_drop high (bitsBelow data (low + high))]
  congr 1
  induction high with
  | zero => rfl
  | succ high ih => exact ih

end Ns3.Network
