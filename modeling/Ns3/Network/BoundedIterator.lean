import Ns3.Network.BufferIterator
import Ns3.Semantics.BoundedReader

/-!
# Iterators that watch the declared lengths

Reading octets and words in network format with a `Buffer::Iterator`, as readers of exactly what is
written for them.
-/

namespace Ns3.Network.BoundedIterator

open BufferIterator Semantics BoundedReader

abbrev Reader :=
  BoundedReader UInt8

def readU8 : Reader UInt8 :=
  readItem

def readNtohU16 : Reader UInt16 := do
  let first ← readU8
  let second ← readU8
  return first.toUInt16 <<< 8 ||| second.toUInt16

def readNtohU32 : Reader UInt32 := do
  let first ← readU8
  let second ← readU8
  let third ← readU8
  let fourth ← readU8
  return ((first.toUInt32 <<< 8 ||| second.toUInt32) <<< 8 ||| third.toUInt32) <<< 8 ||| fourth.toUInt32

theorem reads_readU8 : Reads readU8 fun octet octets => octets = [octet] :=
  reads_readItem

theorem writeHtonU16_shiftIn (first second : UInt8) :
    writeHtonU16 (first.toUInt16 <<< 8 ||| second.toUInt16) = [first, second] := by
  have isFirst : first.toNat < 2 ^ 8 := first.toNat_lt
  have isSecond : second.toNat < 2 ^ 8 := second.toNat_lt
  have eight : (8 : UInt16).toNat % 16 = 8 := rfl
  rw [writeHtonU16]
  congr 1
  · apply UInt8.toNat_inj.1
    rw [UInt16.toNat_toUInt8, UInt16.toNat_shiftRight, toNat_shiftIn16, eight, Nat.shiftRight_eq_div_pow]
    omega
  · congr 1
    apply UInt8.toNat_inj.1
    rw [UInt16.toNat_toUInt8, toNat_shiftIn16]
    omega

theorem writeHtonU32_shiftIn (first second third fourth : UInt8) :
    writeHtonU32 (((first.toUInt32 <<< 8 ||| second.toUInt32) <<< 8 ||| third.toUInt32) <<< 8 ||| fourth.toUInt32) =
      [first, second, third, fourth] := by
  have isFirst : first.toNat < 2 ^ 8 := first.toNat_lt
  have isSecond : second.toNat < 2 ^ 8 := second.toNat_lt
  have isThird : third.toNat < 2 ^ 8 := third.toNat_lt
  have isFourth : fourth.toNat < 2 ^ 8 := fourth.toNat_lt
  have places : (24 : UInt32).toNat % 32 = 24 ∧ (16 : UInt32).toNat % 32 = 16 ∧ (8 : UInt32).toNat % 32 = 8 :=
    ⟨rfl, rfl, rfl⟩
  have one : first.toUInt32.toNat = first.toNat := UInt8.toNat_toUInt32 first
  have two := @toNat_shiftIn first.toUInt32 second (by omega)
  have three := @toNat_shiftIn (first.toUInt32 <<< 8 ||| second.toUInt32) third (by omega)
  have four := @toNat_shiftIn ((first.toUInt32 <<< 8 ||| second.toUInt32) <<< 8 ||| third.toUInt32) fourth (by omega)
  rw [three, two, one] at four
  rw [writeHtonU32]
  congr 1
  · apply UInt8.toNat_inj.1
    rw [UInt32.toNat_toUInt8, UInt32.toNat_shiftRight, four, places.1, Nat.shiftRight_eq_div_pow]
    omega
  · congr 1
    · apply UInt8.toNat_inj.1
      rw [UInt32.toNat_toUInt8, UInt32.toNat_shiftRight, four, places.2.1, Nat.shiftRight_eq_div_pow]
      omega
    · congr 1
      · apply UInt8.toNat_inj.1
        rw [UInt32.toNat_toUInt8, UInt32.toNat_shiftRight, four, places.2.2, Nat.shiftRight_eq_div_pow]
        omega
      · congr 1
        apply UInt8.toNat_inj.1
        rw [UInt32.toNat_toUInt8, four]
        omega

theorem reads_readNtohU16 : Reads readNtohU16 fun word octets => octets = writeHtonU16 word := by
  apply (reads_readU8.bind fun first => reads_readU8.bind fun second => reads_pure _).congr
  intro word octets
  constructor
  · rintro ⟨first, _, _, rfl, ⟨second, _, _, rfl, ⟨rfl, rfl⟩, rfl⟩, rfl⟩
    exact (writeHtonU16_shiftIn first second).symm
  · rintro rfl
    have same := @readNtohU16_write [] word
    rw [List.append_nil] at same
    refine ⟨(word >>> 8).toUInt8, _, [word.toUInt8], rfl, ⟨word.toUInt8, _, [], rfl, ⟨?_, rfl⟩, rfl⟩, rfl⟩
    exact (congrArg Prod.fst (Option.some.inj same)).symm

theorem reads_readNtohU32 : Reads readNtohU32 fun word octets => octets = writeHtonU32 word := by
  apply (reads_readU8.bind fun first => reads_readU8.bind fun second => reads_readU8.bind fun third =>
    reads_readU8.bind fun fourth => reads_pure _).congr
  intro word octets
  constructor
  · rintro ⟨first, _, _, rfl,
      ⟨second, _, _, rfl, ⟨third, _, _, rfl, ⟨fourth, _, _, rfl, ⟨rfl, rfl⟩, rfl⟩, rfl⟩, rfl⟩, rfl⟩
    exact (writeHtonU32_shiftIn first second third fourth).symm
  · rintro rfl
    have same := @readNtohU32_write [] word
    rw [List.append_nil] at same
    refine ⟨(word >>> 24).toUInt8, _, [(word >>> 16).toUInt8, (word >>> 8).toUInt8, word.toUInt8], rfl,
      ⟨(word >>> 16).toUInt8, _, [(word >>> 8).toUInt8, word.toUInt8], rfl,
        ⟨(word >>> 8).toUInt8, _, [word.toUInt8], rfl, ⟨word.toUInt8, _, [], rfl, ⟨?_, rfl⟩, rfl⟩, rfl⟩, rfl⟩, rfl⟩
    exact (congrArg Prod.fst (Option.some.inj same)).symm

end Ns3.Network.BoundedIterator
