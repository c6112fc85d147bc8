import Ns3.Network.BufferIterator
import Ns3.Wifi.RecipientBlockAckAgreement

/-!
# The header of a block ack

`CtrlBAckResponseHeader` with its subfields. The multi-STA variant has one for each AID and TID, of
three kinds: a block ack with a bitmap, an acknowledgment without one, and that of a station that is
not associated, told by its AID. A failed assertion, a fatal error and an access behind a vector are
`none`.
-/

namespace Ns3.Wifi.BlockAckResponse

open Network.BufferIterator

abbrev Mac48Address := {address : List UInt8 // address.length = 6}

/-- The address of six zeros. -/
def noAddress : Mac48Address :=
  ⟨[0, 0, 0, 0, 0, 0], rfl⟩

structure BlockAckType where
  variant : BlockAckVariant
  /-- In bytes. -/
  bitmapLen : List Nat
  deriving DecidableEq

/-- The constructor from a variant. -/
def BlockAckType.ofVariant (variant : BlockAckVariant) : BlockAckType where
  variant := variant
  bitmapLen :=
    match variant with
    | .basic => [128]
    | .compressed | .extendedCompressed | .gcr => [8]
    | .multiTid | .multiSta => []

structure BaInfoInstance where
  aidTidInfo : UInt16 := 0
  startingSeq : UInt16 := 0
  bitmap : List UInt8 := []
  address : Mac48Address := noAddress
  deriving DecidableEq

namespace BaInfoInstance

variable (info : BaInfoInstance)

/-- `GetAid11`. -/
def aid11 : Nat :=
  info.aidTidInfo.toNat &&& 0x07ff

/-- `GetAckType`. -/
def ackType : Bool :=
  info.aidTidInfo.toNat >>> 11 &&& 0x0001 ≠ 0

/-- `GetTidInfo` of a multi-STA block ack. -/
def tid : Nat :=
  info.aidTidInfo.toNat >>> 12 &&& 0x000f

end BaInfoInstance

structure CtrlBAckResponseHeader where
  baAckPolicy : Bool := false
  baType : BlockAckType
  tidInfo : UInt16 := 0
  baInfo : List BaInfoInstance
  deriving DecidableEq

namespace CtrlBAckResponseHeader

def setType (header : CtrlBAckResponseHeader) (type : BlockAckType) : CtrlBAckResponseHeader :=
  { header with
    baType := type
    baInfo := type.bitmapLen.map fun bitmapLen => { bitmap := List.replicate bitmapLen 0 } }

/-- The constructor. -/
def make : CtrlBAckResponseHeader :=
  setType { baType := .ofVariant .basic, baInfo := [] } (.ofVariant .basic)

def getSerializedSize (header : CtrlBAckResponseHeader) : Option Nat :=
  match header.baType.variant with
  | .basic | .compressed | .extendedCompressed => header.baType.bitmapLen.head?.map fun bitmapLen => 2 + (2 + bitmapLen)
  | .multiTid => some (2 + (2 + 2 + 8) * (header.tidInfo.toNat + 1))
  | .gcr => header.baType.bitmapLen.head?.map fun bitmapLen => 2 + (2 + 6 + bitmapLen)
  | .multiSta =>
    some (2 + (header.baType.bitmapLen.map fun bitmapLen => 2 + (if bitmapLen > 0 then 2 else 0) + bitmapLen).sum)

/-- The bits of the variant in the control field. -/
def variantBits : BlockAckVariant -> Nat
  | .basic => 0
  | .compressed => 0x02
  | .extendedCompressed => 0x01
  | .multiTid => 0x03
  | .gcr => 0x06
  | .multiSta => 0x0b

def getBaControl (header : CtrlBAckResponseHeader) : UInt16 :=
  let res := (if header.baAckPolicy then 0x1 else 0) ||| variantBits header.baType.variant <<< 1
  UInt16.ofNat (
    if header.baType.variant ≠ .multiSta then res ||| header.tidInfo.toNat <<< 12 &&& 0xf000 else res)

/-- The fragment number for a length of the bitmap; other lengths are not supported. -/
def fragmentNumber (variant : BlockAckVariant) (bitmapLen : Nat) : Option Nat :=
  match variant with
  | .compressed | .gcr =>
    if bitmapLen = 8 then some 0
    else if bitmapLen = 32 then some 0x0004
    else if bitmapLen = 64 then some 0x0008
    else if bitmapLen = 128 then some 0x000a
    else none
  | .multiSta =>
    if bitmapLen = 8 then some 0
    else if bitmapLen = 16 then some 0x0002
    else if bitmapLen = 32 then some 0x0004
    else if bitmapLen = 4 then some 0x0006
    else if bitmapLen = 64 then some 0x0008
    else if bitmapLen = 128 then some 0x000a
    else none
  | _ => some 0

/-- `GetStartingSequenceControl` of the subfield at an index. -/
def getStartingSequenceControl (header : CtrlBAckResponseHeader) (index : Nat) : Option UInt16 :=
  header.baInfo[index]?.bind fun info => header.baType.bitmapLen[index]?.bind fun bitmapLen =>
    if header.baType.variant = .multiSta ∧ info.bitmap = [] then none
    else (fragmentNumber header.baType.variant bitmapLen).map fun fragNumber =>
      UInt16.ofNat (info.startingSeq.toNat <<< 4 &&& 0xfff0 ||| fragNumber)

/-- A subfield of a multi-STA block ack. -/
def serializeSubfield (header : CtrlBAckResponseHeader) (index : Nat) (info : BaInfoInstance) : Option (List UInt8) :=
  if info.aid11 ≠ 2045 then
    if info.bitmap ≠ [] then
      (header.getStartingSequenceControl index).map fun control =>
        writeHtolsbU16 info.aidTidInfo ++ writeHtolsbU16 control ++ info.bitmap
    else some (writeHtolsbU16 info.aidTidInfo)
  else some (writeHtolsbU16 info.aidTidInfo ++ writeHtolsbU32 0 ++ info.address.val)

/-- The loop over the subfields from an index on. -/
def serializeSubfields (header : CtrlBAckResponseHeader) : Nat -> List BaInfoInstance -> Option (List UInt8)
  | _, [] => some []
  | index, info :: baInfo =>
    (header.serializeSubfield index info).bind fun bytes =>
      (header.serializeSubfields (index + 1) baInfo).map fun further => bytes ++ further

def serialize (header : CtrlBAckResponseHeader) : Option (List UInt8) :=
  let control := writeHtolsbU16 header.getBaControl
  match header.baType.variant with
  | .basic | .compressed | .extendedCompressed =>
    header.baInfo.head?.bind fun info => (header.getStartingSequenceControl 0).map fun sequenceControl =>
      control ++ (writeHtolsbU16 sequenceControl ++ info.bitmap)
  | .gcr =>
    header.baInfo.head?.bind fun info => (header.getStartingSequenceControl 0).map fun sequenceControl =>
      control ++ (writeHtolsbU16 sequenceControl ++ (info.address.val ++ info.bitmap))
  | .multiSta =>
    (header.serializeSubfields 0 header.baInfo).map fun subfields => control ++ subfields
  | .multiTid => none -- Multi-tid block ack is not supported.

def setBaControl (header : CtrlBAckResponseHeader) (ba : UInt16) : Option CtrlBAckResponseHeader :=
  let bits := ba.toNat >>> 1 &&& 0x0f
  let variant : Option BlockAckVariant :=
    if bits = 0x06 then some .gcr
    else if bits = 0x03 then some .multiTid
    else if bits = 0x01 then some .extendedCompressed
    else if bits = 0x02 then some .compressed
    else if bits = 0 then some .basic
    else if bits = 0x0b then some .multiSta
    else none
  variant.map fun variant =>
    let typed := setType { header with baAckPolicy := ba.toNat &&& 0x01 = 1 } (.ofVariant variant)
    if variant ≠ .multiSta then { typed with tidInfo := UInt16.ofNat (ba.toNat >>> 12 &&& 0x0f) } else typed

/-- The length of the bitmap for a fragment number. -/
def bitmapLenOf (variant : BlockAckVariant) (fragNumber : Nat) : Option Nat :=
  match variant with
  | .compressed | .gcr =>
    if fragNumber = 0 then some 8
    else if fragNumber = 4 then some 32
    else if fragNumber = 8 then some 64
    else if fragNumber = 10 then some 128
    else none
  | .multiSta =>
    if fragNumber = 0 then some 8
    else if fragNumber = 2 then some 16
    else if fragNumber = 4 then some 32
    else if fragNumber = 6 then some 4
    else if fragNumber = 8 then some 64
    else if fragNumber = 10 then some 128
    else none
  | _ => none

/-- `SetStartingSequenceControl` of the subfield at an index. -/
def setStartingSequenceControl (header : CtrlBAckResponseHeader) (seqControl : UInt16) (index : Nat) :
    Option CtrlBAckResponseHeader :=
  let fragNumber := seqControl.toNat &&& 0x000f
  let variant := header.baType.variant
  let sized : Option CtrlBAckResponseHeader :=
    match variant with
    | .compressed | .gcr => (bitmapLenOf variant fragNumber).map fun bitmapLen => header.setType ⟨variant, [bitmapLen]⟩
    | .multiSta => (bitmapLenOf variant fragNumber).map fun bitmapLen =>
      { header with
        baType := ⟨variant, header.baType.bitmapLen.set index bitmapLen⟩
        baInfo := header.baInfo.modify index fun info => { info with bitmap := List.replicate bitmapLen 0 } }
    | _ => some header
  sized.map fun header =>
    { header with
      baInfo := header.baInfo.modify index fun info =>
        { info with startingSeq := UInt16.ofNat (seqControl.toNat >>> 4 &&& 0x0fff) } }

def setBitmap (header : CtrlBAckResponseHeader) (index : Nat) (bitmap : List UInt8) : CtrlBAckResponseHeader :=
  { header with baInfo := header.baInfo.modify index fun info => { info with bitmap := bitmap } }

def setAddress (header : CtrlBAckResponseHeader) (index : Nat) (address : Mac48Address) : CtrlBAckResponseHeader :=
  { header with baInfo := header.baInfo.modify index fun info => { info with address := address } }

/-- `DeserializeBitmap`: each byte of the bitmap is replaced. -/
def deserializeBitmap (header : CtrlBAckResponseHeader) (index : Nat) (i : List UInt8) :
    Option (CtrlBAckResponseHeader × List UInt8) :=
  header.baType.bitmapLen[index]?.bind fun bitmapLen => (readBytes bitmapLen i).map fun (bitmap, i) =>
    (header.setBitmap index bitmap, i)

/-- `ReadFrom`. -/
def readAddress (i : List UInt8) : Option (Mac48Address × List UInt8) :=
  (readBytes 6 i).bind fun (mac, i) => if isMac : mac.length = 6 then some (⟨mac, isMac⟩, i) else none

/-- One round of the loop over the subfields. -/
def deserializeSubfield (header : CtrlBAckResponseHeader) (index : Nat) (i : List UInt8) :
    Option (CtrlBAckResponseHeader × List UInt8) :=
  (readLsbtohU16 i).bind fun (aidTidInfo, i) =>
    let info : BaInfoInstance := { aidTidInfo := aidTidInfo }
    let header := { header with
      baInfo := header.baInfo ++ [info]
      baType := { header.baType with bitmapLen := header.baType.bitmapLen ++ [0] } }
    if info.aid11 ≠ 2045 then
      if !info.ackType && decide (info.tid < 8) then
        (readLsbtohU16 i).bind fun (control, i) => (header.setStartingSequenceControl control index).bind fun header =>
          header.deserializeBitmap index i
      else some (header, i)
    else
      (readLsbtohU32 i).bind fun (_, i) => (readAddress i).map fun (address, i) =>
        -- The length of this subfield is 12: 8 simulates the correct size.
        ({ header.setAddress index address with
          baType := { header.baType with bitmapLen := header.baType.bitmapLen.set index 8 } }, i)

/-- The loop, until nothing remains. Each round reads at least two bytes. -/
def deserializeSubfields : Nat -> CtrlBAckResponseHeader -> Nat -> List UInt8 -> Option CtrlBAckResponseHeader
  | _, header, _, [] => some header
  | 0, _, _, _ => none
  | fuel + 1, header, index, i =>
    (header.deserializeSubfield index i).bind fun (header, i) => deserializeSubfields fuel header (index + 1) i

/-- `Deserialize` into a new header, with the number of bytes that it returns. -/
def deserialize (start : List UInt8) : Option (CtrlBAckResponseHeader × Nat) :=
  (readLsbtohU16 start).bind fun (ba, i) => (make.setBaControl ba).bind fun header =>
    match header.baType.variant with
    | .basic | .compressed | .extendedCompressed =>
      (readLsbtohU16 i).bind fun (control, i) => (header.setStartingSequenceControl control 0).bind fun header =>
        (header.deserializeBitmap 0 i).map fun (header, i) => (header, start.length - i.length)
    | .gcr =>
      (readLsbtohU16 i).bind fun (control, i) => (header.setStartingSequenceControl control 0).bind fun header =>
        (readAddress i).bind fun (address, i) =>
          ((header.setAddress 0 address).deserializeBitmap 0 i).map fun (header, i) =>
            (header, start.length - i.length)
    | .multiSta => (deserializeSubfields i.length header 0 i).map fun header => (header, start.length)
    | .multiTid => none -- Multi-tid block ack is not supported.

/-- What the subfield at an index says. -/
def viewAt (header : CtrlBAckResponseHeader) (index : Nat) : Option Wifi.CtrlBAckResponseHeader :=
  header.baInfo[index]?.bind fun info => header.baType.bitmapLen[index]?.map fun bitmapLen =>
    { variant := header.baType.variant
      bitmapLen := bitmapLen
      startingSeq := info.startingSeq.toNat
      bitmap := info.bitmap }

/-- `SetReceivedPacket`. The basic variant has two bytes for each number. -/
def setReceivedPacket (header : CtrlBAckResponseHeader) (seq index : Nat) : Option CtrlBAckResponseHeader :=
  (header.viewAt index).bind fun view =>
    match header.baType.variant with
    | .basic =>
      if distance seq view.startingSeq < view.bitmapLen * 8 % 65536 / 16 then
        some (header.setBitmap index (view.bitmap.modify (view.indexInBitmap seq * 2) fun byte => byte ||| 0x01))
      else some header
    | .multiTid => none
    | .compressed | .extendedCompressed | .gcr | .multiSta =>
      some (header.setBitmap index (view.setReceivedPacket seq).bitmap)

/-- `IsPacketReceived`. It is impossible to say if an entire packet was received from the basic
variant. -/
def isPacketReceived (header : CtrlBAckResponseHeader) (seq index : Nat) : Option Bool :=
  header.baInfo[index]?.bind fun info =>
    if header.baType.variant = .multiSta ∧ info.ackType = true ∧ info.tid = 14 then some true
    else (header.viewAt index).bind fun view =>
      match header.baType.variant with
      | .basic => some false
      | .multiTid => none
      | .compressed | .extendedCompressed | .gcr | .multiSta =>
        if view.isInBitmap seq then
          view.bitmap[view.indexInBitmap seq / 8]?.map fun byte =>
            byte &&& 1 <<< UInt8.ofNat (view.indexInBitmap seq % 8) ≠ 0
        else some false

end CtrlBAckResponseHeader
end Ns3.Wifi.BlockAckResponse
