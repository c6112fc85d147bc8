import Mathlib.Data.UInt

/-!
# Sequence numbers

`SequenceNumber32` wraps around, and compares by the shorter way round. Numbers less than
half the ring from each other compare like their distances from a common start.
-/

namespace Ns3.Network

open UInt32

structure SequenceNumber32 where
  value : UInt32
  deriving DecidableEq

namespace SequenceNumber32

/-- `std::numeric_limits<uint32_t>::max() / 2`. -/
def halfMax : UInt32 :=
  0xffffffff / 2

variable (a b : SequenceNumber32)

/-- `operator<=>`. -/
def compare : Ordering :=
  if a.value = b.value then .eq
  else if (b.value < a.value ∧ a.value - b.value ≤ halfMax) ∨
      (a.value < b.value ∧ halfMax < b.value - a.value) then .gt
  else .lt

instance : LT SequenceNumber32 :=
  ⟨fun a b => compare a b = .lt⟩

instance : LE SequenceNumber32 :=
  ⟨fun a b => compare a b ≠ .gt⟩

instance (a b : SequenceNumber32) : Decidable (a < b) :=
  inferInstanceAs (Decidable (compare a b = .lt))

instance (a b : SequenceNumber32) : Decidable (a ≤ b) :=
  inferInstanceAs (Decidable (compare a b ≠ .gt))

/-- `operator+` with `SequenceNumber32(delta)`. -/
def add (a : SequenceNumber32) (delta : UInt32) : SequenceNumber32 :=
  ⟨a.value + delta⟩

instance : HAdd SequenceNumber32 UInt32 SequenceNumber32 :=
  ⟨add⟩

/-- `operator-` of two sequence numbers. -/
def sub : Int32 :=
  if b.value < a.value then
    if a.value - b.value < halfMax then (a.value - b.value).toInt32
    else -(0xffffffff - a.value + 1 + b.value).toInt32
  else
    if b.value - a.value < halfMax then -(b.value - a.value).toInt32
    else (0xffffffff - b.value + 1 + a.value).toInt32

theorem toUInt32_sub : (a.sub b).toUInt32 = a.value - b.value := by
  have wraps : (0xffffffff : UInt32) + 1 = 0 := by decide
  rw [sub]
  split <;> split <;> simp only [Int32.toUInt32_neg, toUInt32_toInt32] <;> grind

variable {start : SequenceNumber32} {x y : Nat}

theorem toNat_offset (start : SequenceNumber32) (x : Nat) :
    (start + UInt32.ofNat x).value.toNat = (start.value.toNat + x) % 2 ^ 32 := by
  change (start.value + UInt32.ofNat x).toNat = _
  rw [UInt32.toNat_add, UInt32.toNat_ofNat', Nat.add_mod_mod]

/-- Less than half the ring apart, sequence numbers compare like the distances they are at. -/
theorem compare_offset (low : x < y + 2 ^ 31) (high : y < x + 2 ^ 31) :
    compare (start + UInt32.ofNat x) (start + UInt32.ofNat y) = Ord.compare x y := by
  have half : halfMax.toNat = 2 ^ 31 - 1 := by decide
  simp only [compare, UInt32.lt_iff_toNat_lt, UInt32.le_iff_toNat_le, ← UInt32.toNat_inj,
    UInt32.toNat_sub, half, toNat_offset]
  rcases Nat.lt_trichotomy x y with less | rfl | greater
  · rw [Nat.compare_eq_lt.mpr less, if_neg (by omega), if_neg (by omega)]
  · rw [if_pos rfl, Nat.compare_eq_eq.mpr rfl]
  · rw [Nat.compare_eq_gt.mpr greater, if_neg (by omega), if_pos (by omega)]

theorem offset_lt_iff (low : x < y + 2 ^ 31) (high : y < x + 2 ^ 31) : start + ofNat x < start + ofNat y ↔ x < y := by
  change compare _ _ = .lt ↔ _
  rw [compare_offset low high, Nat.compare_eq_lt]

theorem offset_le_iff (low : x < y + 2 ^ 31) (high : y < x + 2 ^ 31) : start + ofNat x ≤ start + ofNat y ↔ x ≤ y := by
  change compare _ _ ≠ .gt ↔ _
  rw [compare_offset low high, Ne, Nat.compare_eq_gt, Nat.not_lt]

theorem offset_inj (low : x < y + 2 ^ 32) (high : y < x + 2 ^ 32) : start + ofNat x = start + ofNat y ↔ x = y := by
  refine ⟨fun same => ?_, fun same => by rw [same]⟩
  have values := congrArg (fun number => number.value.toNat) same
  simp only [toNat_offset] at values
  omega

theorem offset_add (start : SequenceNumber32) (x y : Nat) : start + ofNat x + ofNat y = start + ofNat (x + y) := by
  change (⟨start.value + ofNat x + ofNat y⟩ : SequenceNumber32) = ⟨start.value + ofNat (x + y)⟩
  rw [ofNat_add, add_assoc]

theorem offset_sub (ordered : x ≤ y) : ((start + ofNat y).sub (start + ofNat x)).toUInt32 = ofNat (y - x) := by
  rw [toUInt32_sub]
  obtain ⟨more, rfl⟩ := Nat.exists_eq_add_of_le ordered
  change start.value + ofNat (x + more) - (start.value + ofNat x) = _
  rw [ofNat_add, Nat.add_sub_cancel_left]
  grind

end SequenceNumber32

end Ns3.Network
