import Mathlib.Data.Nat.Bitwise

/-!
# Iterators over a buffer

Reading and writing with a `Buffer::Iterator`. An iterator is the list of the bytes behind it; to read
behind the last one fails. What is written in network format is what is read in it.
-/

namespace Ns3.Network.BufferIterator

def readU8 : List UInt8 -> Option (UInt8 × List UInt8)
  | byte :: rest => some (byte, rest)
  | [] => none

def readNtohU16 : List UInt8 -> Option (UInt16 × List UInt8)
  | first :: second :: rest => some (first.toUInt16 <<< 8 ||| second.toUInt16, rest)
  | _ => none

def readNtohU32 : List UInt8 -> Option (UInt32 × List UInt8)
  | first :: second :: third :: fourth :: rest =>
    some (((first.toUInt32 <<< 8 ||| second.toUInt32) <<< 8 ||| third.toUInt32) <<< 8 ||| fourth.toUInt32, rest)
  | _ => none

/-- `ReadLsbtohU16`. -/
def readLsbtohU16 : List UInt8 -> Option (UInt16 × List UInt8)
  | first :: second :: rest => some (second.toUInt16 <<< 8 ||| first.toUInt16, rest)
  | _ => none

def readLsbtohU32 : List UInt8 -> Option (UInt32 × List UInt8)
  | first :: second :: third :: fourth :: rest =>
    some (((fourth.toUInt32 <<< 8 ||| third.toUInt32) <<< 8 ||| second.toUInt32) <<< 8 ||| first.toUInt32, rest)
  | _ => none

/-- `Read`. -/
def readBytes (size : Nat) (bytes : List UInt8) : Option (List UInt8 × List UInt8) :=
  if size ≤ bytes.length then some (bytes.take size, bytes.drop size) else none

/-- `Next`. -/
def next (delta : Nat) (bytes : List UInt8) : Option (List UInt8) :=
  if delta ≤ bytes.length then some (bytes.drop delta) else none

def writeHtonU16 (data : UInt16) : List UInt8 :=
  [(data >>> 8).toUInt8, data.toUInt8]

def writeHtonU32 (data : UInt32) : List UInt8 :=
  [(data >>> 24).toUInt8, (data >>> 16).toUInt8, (data >>> 8).toUInt8, data.toUInt8]

/-- `WriteHtolsbU16`. -/
def writeHtolsbU16 (data : UInt16) : List UInt8 :=
  [data.toUInt8, (data >>> 8).toUInt8]

def writeHtolsbU32 (data : UInt32) : List UInt8 :=
  [data.toUInt8, (data >>> 8).toUInt8, (data >>> 16).toUInt8, (data >>> 24).toUInt8]

variable {rest bytes : List UInt8}

theorem toNat_shiftIn {word : UInt32} {byte : UInt8} (room : word.toNat < 2 ^ 24) :
    (word <<< 8 ||| byte.toUInt32).toNat = word.toNat * 2 ^ 8 + byte.toNat := by
  have isByte : byte.toNat < 2 ^ 8 := byte.toNat_lt
  have kept : word.toNat <<< 8 % 2 ^ 32 = word.toNat <<< 8 := by
    rw [Nat.shiftLeft_eq]
    omega
  have eight : (8 : UInt32).toNat % 32 = 8 := rfl
  rw [UInt32.toNat_or, UInt32.toNat_shiftLeft, UInt8.toNat_toUInt32, eight, kept,
    ← Nat.shiftLeft_add_eq_or_of_lt isByte, Nat.shiftLeft_eq]

theorem toNat_shiftIn16 {first second : UInt8} :
    (first.toUInt16 <<< 8 ||| second.toUInt16).toNat = first.toNat * 2 ^ 8 + second.toNat := by
  have isFirst : first.toNat < 2 ^ 8 := first.toNat_lt
  have isSecond : second.toNat < 2 ^ 8 := second.toNat_lt
  have kept : first.toNat <<< 8 % 2 ^ 16 = first.toNat <<< 8 := by
    rw [Nat.shiftLeft_eq]
    omega
  have eight : (8 : UInt16).toNat % 16 = 8 := rfl
  rw [UInt16.toNat_or, UInt16.toNat_shiftLeft, UInt8.toNat_toUInt16, UInt8.toNat_toUInt16, eight, kept,
    ← Nat.shiftLeft_add_eq_or_of_lt isSecond, Nat.shiftLeft_eq]

@[simp] theorem readNtohU16_write (data : UInt16) : readNtohU16 (writeHtonU16 data ++ rest) = some (data, rest) := by
  have isWord : (data >>> 8).toUInt8.toUInt16 <<< 8 ||| data.toUInt8.toUInt16 = data := by
    apply UInt16.toNat_inj.mp
    have eight : (8 : UInt16).toNat % 16 = 8 := rfl
    have small : data.toNat < 2 ^ 16 := data.toNat_lt
    rw [toNat_shiftIn16]
    simp only [UInt16.toNat_toUInt8, UInt16.toNat_shiftRight, eight, Nat.shiftRight_eq_div_pow]
    omega
  exact congrArg (fun word => some (word, rest)) isWord

@[simp] theorem readLsbtohU16_write (data : UInt16) :
    readLsbtohU16 (writeHtolsbU16 data ++ rest) = some (data, rest) := by
  have isWord := congrArg (Option.map Prod.fst) (@readNtohU16_write rest data)
  exact congrArg (fun word => some (word, rest)) (Option.some.inj isWord)

@[simp] theorem readNtohU32_write (data : UInt32) : readNtohU32 (writeHtonU32 data ++ rest) = some (data, rest) := by
  have isWord : (((data >>> 24).toUInt8.toUInt32 <<< 8 ||| (data >>> 16).toUInt8.toUInt32) <<< 8 |||
      (data >>> 8).toUInt8.toUInt32) <<< 8 ||| data.toUInt8.toUInt32 = data := by
    apply UInt32.toNat_inj.mp
    have small : data.toNat < 2 ^ 32 := data.toNat_lt
    have first : (data >>> 24).toUInt8.toUInt32.toNat < 2 ^ 8 := UInt8.toNat_lt _
    have isSecond : (data >>> 16).toUInt8.toNat < 2 ^ 8 := UInt8.toNat_lt _
    have isThird : (data >>> 8).toUInt8.toNat < 2 ^ 8 := UInt8.toNat_lt _
    have second := @toNat_shiftIn (data >>> 24).toUInt8.toUInt32 (data >>> 16).toUInt8 (by omega)
    have third := @toNat_shiftIn ((data >>> 24).toUInt8.toUInt32 <<< 8 ||| (data >>> 16).toUInt8.toUInt32)
      (data >>> 8).toUInt8 (by omega)
    rw [toNat_shiftIn (by omega), third, second]
    have places : (24 : UInt32).toNat % 32 = 24 ∧ (16 : UInt32).toNat % 32 = 16 ∧ (8 : UInt32).toNat % 32 = 8 :=
      ⟨rfl, rfl, rfl⟩
    simp only [UInt8.toNat_toUInt32, UInt32.toNat_toUInt8, UInt32.toNat_shiftRight, places, Nat.shiftRight_eq_div_pow]
    omega
  exact congrArg (fun word => some (word, rest)) isWord

@[simp] theorem readBytes_append : readBytes bytes.length (bytes ++ rest) = some (bytes, rest) := by
  rw [readBytes, if_pos (by simp), List.take_left, List.drop_left]

@[simp] theorem next_append : next bytes.length (bytes ++ rest) = some rest := by
  rw [next, if_pos (by simp), List.drop_left]

@[simp] theorem length_writeHtonU16 (data : UInt16) : (writeHtonU16 data).length = 2 :=
  rfl

@[simp] theorem length_writeHtolsbU16 (data : UInt16) : (writeHtolsbU16 data).length = 2 :=
  rfl

@[simp] theorem length_writeHtolsbU32 (data : UInt32) : (writeHtolsbU32 data).length = 4 :=
  rfl

@[simp] theorem length_writeHtonU32 (data : UInt32) : (writeHtonU32 data).length = 4 :=
  rfl

end Ns3.Network.BufferIterator
