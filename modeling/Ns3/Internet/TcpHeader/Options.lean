import Ns3.Network.BufferIterator

/-!
# TCP options

Each option writes its kind, its size and what it carries; an option that is read from bytes returns
how many it takes, or 0 if they are malformed.
-/

namespace Ns3.Internet

open Network.BufferIterator List

/-- A SACK block. -/
abbrev TcpOption.SackBlock := UInt32 × UInt32

inductive TcpOption where
  | endOfList
  | nop
  | mss (value : UInt16)
  | winScale (scale : UInt8)
  | sackPermitted
  | sack (sackList : List TcpOption.SackBlock)
  | ts (timestamp echo : UInt32)
  | unknown (kind : UInt8) (size : Nat) (content : List UInt8)
  deriving DecidableEq

namespace TcpOption

def getKind : TcpOption -> UInt8
  | endOfList => 0
  | nop => 1
  | mss _ => 2
  | winScale _ => 3
  | sackPermitted => 4
  | sack _ => 5
  | ts _ _ => 8
  | unknown kind _ _ => kind

def isKindKnown (kind : UInt8) : Bool :=
  kind = 0 ∨ kind = 1 ∨ kind = 2 ∨ kind = 3 ∨ kind = 4 ∨ kind = 5 ∨ kind = 8

def getSerializedSize : TcpOption -> Nat
  | endOfList => 1
  | nop => 1
  | mss _ => 4
  | winScale _ => 3
  | sackPermitted => 2
  | sack sackList => 2 + sackList.length * 8
  | ts _ _ => 10
  | unknown _ size _ => size

def serializeBlock (block : SackBlock) : List UInt8 :=
  writeHtonU32 block.1 ++ writeHtonU32 block.2

def serialize : TcpOption -> List UInt8
  | endOfList => [0]
  | nop => [1]
  | mss value => [2, 4] ++ writeHtonU16 value
  | winScale scale => [3, 3, scale]
  | sackPermitted => [4, 2]
  | sack sackList => [5, UInt8.ofNat (sackList.length * 8 + 2)] ++ sackList.flatMap serializeBlock
  | ts timestamp echo => [8, 10] ++ writeHtonU32 timestamp ++ writeHtonU32 echo
  | unknown kind size content => if size = 0 then [] else [kind, UInt8.ofNat size] ++ content.take (size - 2)

/-- What is read: the size that is returned, and the option. -/
abbrev Deserialized := Nat × TcpOption

/-- An option whose size is fixed, which reads the rest if the size is right. -/
def deserializeFixed (option : TcpOption) (size : UInt8) (i : List UInt8)
    (further : List UInt8 -> Option TcpOption) : Option Deserialized :=
  (readU8 i).bind fun kind =>
    if kind.1 ≠ option.getKind then some (0, option)
    else (readU8 kind.2).bind fun read =>
      if read.1 ≠ size then some (0, option)
      else (further read.2).map fun option => (option.getSerializedSize, option)

/-- An option that is only a kind. -/
def deserializeKind (option : TcpOption) (i : List UInt8) : Option Deserialized :=
  (readU8 i).map fun kind => if kind.1 ≠ option.getKind then (0, option) else (option.getSerializedSize, option)

variable (i : List UInt8)

def deserializeMss : Option Deserialized :=
  (readU8 i).bind fun kind =>
    if kind.1 ≠ 2 then some (0, mss 1460)
    else (readU8 kind.2).bind fun size =>
      -- Another size is a fatal error here.
      if size.1 ≠ 4 then none
      else (readNtohU16 size.2).map fun read => (4, mss read.1)

def deserializeWinScale : Option Deserialized :=
  deserializeFixed (winScale 0) 3 i fun i => (readU8 i).map fun scale => winScale scale.1

def deserializeSackPermitted : Option Deserialized :=
  deserializeFixed sackPermitted 2 i fun _ => some sackPermitted

def deserializeTs : Option Deserialized :=
  deserializeFixed (ts 0 0) 10 i fun i =>
    (readNtohU32 i).bind fun timestamp => (readNtohU32 timestamp.2).map fun echo => ts timestamp.1 echo.1

/-- The loop over the blocks. -/
def deserializeBlocks : Nat -> List UInt8 -> Option (List SackBlock)
  | 0, _ => some []
  | sackCount + 1, i =>
    (readNtohU32 i).bind fun leftEdge => (readNtohU32 leftEdge.2).bind fun rightEdge =>
      (deserializeBlocks sackCount rightEdge.2).map fun blocks => (leftEdge.1, rightEdge.1) :: blocks

/-- The count is rounded to zero for a size that is less than 2. -/
def deserializeSack : Option Deserialized :=
  (readU8 i).bind fun kind =>
    if kind.1 ≠ 5 then some (0, sack [])
    else (readU8 kind.2).bind fun size =>
      (deserializeBlocks ((size.1.toNat - 2) / 8) size.2).map fun blocks =>
        ((sack blocks).getSerializedSize, sack blocks)

def deserializeUnknown : Option Deserialized :=
  (readU8 i).bind fun kind => (readU8 kind.2).bind fun size =>
    if size.1.toNat < 2 ∨ size.1.toNat > 40 then some (0, unknown kind.1 size.1.toNat [])
    else (readBytes (size.1.toNat - 2) size.2).map fun content =>
      (size.1.toNat, unknown kind.1 size.1.toNat content.1)

/-- `CreateOption` for a kind, and `Deserialize` of what it creates. -/
def deserialize (kind : UInt8) (i : List UInt8) : Option Deserialized :=
  if kind = 0 then deserializeKind endOfList i
  else if kind = 1 then deserializeKind nop i
  else if kind = 2 then deserializeMss i
  else if kind = 3 then deserializeWinScale i
  else if kind = 4 then deserializeSackPermitted i
  else if kind = 5 then deserializeSack i
  else if kind = 8 then deserializeTs i
  else deserializeUnknown i

/-- What a peer may send: an unknown option has a kind of its own and all its bytes, and a list of
blocks fits in a header. -/
def WellFormed : TcpOption -> Prop
  | sack sackList => sackList.length ≤ 4
  | unknown kind size content => isKindKnown kind = false ∧ 2 ≤ size ∧ size ≤ 40 ∧ content.length = size - 2
  | _ => True

variable {option : TcpOption} {rest : List UInt8} {blocks : List SackBlock}

theorem length_blocks : (blocks.flatMap serializeBlock).length = blocks.length * 8 := by
  induction blocks with
  | nil => rfl
  | cons block blocks ih =>
    rw [flatMap_cons, length_append, ih, length_cons]
    simp only [serializeBlock, length_append, length_writeHtonU32]
    omega

theorem length_serialize (wellFormed : option.WellFormed) : option.serialize.length = option.getSerializedSize := by
  cases option with
  | sack sackList =>
    simp only [serialize, length_append, length_blocks, getSerializedSize]
    rfl
  | unknown kind size content =>
    obtain ⟨-, atLeast, -, length⟩ := wellFormed
    rw [serialize, if_neg (by omega), length_append, length_take, length, getSerializedSize]
    simp only [length_cons, length_nil]
    omega
  | _ => rfl

theorem size_pos (wellFormed : option.WellFormed) : 0 < option.getSerializedSize := by
  cases option with
  | sack sackList => exact Nat.lt_of_lt_of_le (by decide) (Nat.le_add_right 2 _)
  | unknown kind size content => exact Nat.lt_of_lt_of_le (by decide) wellFormed.2.1
  | _ => exact Nat.succ_pos _

theorem deserializeBlocks_serialize :
    deserializeBlocks blocks.length (blocks.flatMap serializeBlock ++ rest) = some blocks := by
  induction blocks with
  | nil => rfl
  | cons block blocks ih =>
    rw [flatMap_cons, length_cons, deserializeBlocks]
    simp only [serializeBlock, append_assoc, readNtohU32_write, Option.bind_some]
    rw [ih]
    rfl

theorem serialize_eq_cons (wellFormed : option.WellFormed) :
    ∃ further, option.serialize = option.getKind :: further := by
  cases option with
  | unknown kind size content =>
    refine ⟨UInt8.ofNat size :: content.take (size - 2), if_neg ?_⟩
    have atLeast := wellFormed.2.1
    omega
  | _ => exact ⟨_, rfl⟩

theorem deserialize_serialize (wellFormed : option.WellFormed) :
    deserialize option.getKind (option.serialize ++ rest) = some (option.getSerializedSize, option) := by
  cases option with
  | endOfList => rfl
  | nop => rfl
  | mss value =>
    have read : deserialize 2 ([2, 4] ++ writeHtonU16 value ++ rest) =
        (readNtohU16 (writeHtonU16 value ++ rest)).map fun read => (4, TcpOption.mss read.1) := rfl
    rw [getKind, serialize, read, readNtohU16_write]
    rfl
  | winScale scale => rfl
  | sackPermitted => rfl
  | sack sackList =>
    have small : sackList.length ≤ 4 := wellFormed
    have count : ((UInt8.ofNat (sackList.length * 8 + 2)).toNat - 2) / 8 = sackList.length := by
      rw [UInt8.toNat_ofNat_of_lt' (by
        simp only [UInt8.size]
        omega)]
      omega
    have read : deserialize 5 ([5, UInt8.ofNat (sackList.length * 8 + 2)] ++ sackList.flatMap serializeBlock ++ rest) =
        (deserializeBlocks (((UInt8.ofNat (sackList.length * 8 + 2)).toNat - 2) / 8)
          (sackList.flatMap serializeBlock ++ rest)).map
            fun blocks => ((sack blocks).getSerializedSize, sack blocks) := rfl
    rw [getKind, serialize, read, count, deserializeBlocks_serialize]
    rfl
  | ts timestamp echo =>
    have read : deserialize 8 ([8, 10] ++ writeHtonU32 timestamp ++ writeHtonU32 echo ++ rest) =
        ((readNtohU32 (writeHtonU32 timestamp ++ (writeHtonU32 echo ++ rest))).bind fun timestamp =>
          (readNtohU32 timestamp.2).map fun echo => ts timestamp.1 echo.1).map
            fun option => (option.getSerializedSize, option) := rfl
    rw [getKind, serialize, read, readNtohU32_write, Option.bind_some, readNtohU32_write]
    rfl
  | unknown kind size content =>
    obtain ⟨isUnknown, atLeast, atMost, length⟩ := wellFormed
    have isSize : (UInt8.ofNat size).toNat = size := UInt8.toNat_ofNat_of_lt' (by
      simp only [UInt8.size]
      omega)
    simp only [isKindKnown, decide_eq_false_iff_not, not_or] at isUnknown
    obtain ⟨not0, not1, not2, not3, not4, not5, not8⟩ := isUnknown
    rw [getKind, serialize, if_neg (by omega), deserialize, if_neg not0, if_neg not1, if_neg not2, if_neg not3,
      if_neg not4, if_neg not5, if_neg not8, ← length, take_length]
    have read : deserializeUnknown ([kind, UInt8.ofNat size] ++ content ++ rest) =
        if (UInt8.ofNat size).toNat < 2 ∨ (UInt8.ofNat size).toNat > 40 then
          some (0, unknown kind (UInt8.ofNat size).toNat [])
        else (readBytes ((UInt8.ofNat size).toNat - 2) (content ++ rest)).map fun content =>
          ((UInt8.ofNat size).toNat, unknown kind (UInt8.ofNat size).toNat content.1) := rfl
    rw [read, isSize, if_neg (by omega), ← length, readBytes_append]
    rfl

end TcpOption

end Ns3.Internet
