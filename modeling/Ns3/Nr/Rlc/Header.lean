import Ns3.Network.BufferIterator
import Ns3.Nr.Rlc.SequenceNumber10

/-!
# The headers of the RLC

`NrRlcHeader` is the header of the unacknowledged mode, `NrRlcAmHeader` the one of the acknowledged
mode. The extension bits and the length indicators are packed in the same way in both.
-/

namespace Ns3.Nr

open Network.BufferIterator

/-- `WriteU8` of an int. -/
def writeU8 (data : Nat) : UInt8 :=
  UInt8.ofNat data

def dataFieldFollows : UInt8 := 0

def eLiFieldsFollows : UInt8 := 1

/-- The loop that writes the extension bits behind the first one, and the length indicators. -/
def serializeLiFields : List UInt8 -> List UInt16 -> List UInt8
  | oddE :: extensionBits, oddLi :: lengthIndicators =>
    match extensionBits, lengthIndicators with
    | evenE :: extensionBits, evenLi :: lengthIndicators =>
      writeU8 (oddE.toNat <<< 7 &&& 0x80 ||| oddLi.toNat >>> 4 &&& 0x7F) ::
        writeU8 (oddLi.toNat <<< 4 &&& 0xF0 ||| evenE.toNat <<< 3 &&& 0x08 ||| evenLi.toNat >>> 8 &&& 0x07) ::
        writeU8 (evenLi.toNat &&& 0xFF) :: serializeLiFields extensionBits lengthIndicators
    | _, _ =>
      -- Padding is implicit.
      [writeU8 (oddE.toNat <<< 7 &&& 0x80 ||| oddLi.toNat >>> 4 &&& 0x7F), writeU8 (oddLi.toNat <<< 4 &&& 0xF0)]
  | _, _ => []
termination_by structural extensionBits => extensionBits

/-- What the loop over the fields adds to a header. -/
structure LiFields where
  extensionBits : List UInt8
  lengthIndicators : List UInt16
  headerLength : UInt16

def LiFields.append (first further : LiFields) : LiFields where
  extensionBits := first.extensionBits ++ further.extensionBits
  lengthIndicators := first.lengthIndicators ++ further.lengthIndicators
  headerLength := first.headerLength + further.headerLength

/-- The loop that reads them, as long as an extension bit says that more fields follow. -/
def deserializeLiFields : List UInt8 -> Option LiFields
  | byte1 :: byte2 :: i =>
    let oddE := UInt8.ofNat ((byte1.toNat &&& 0x80) >>> 7)
    let oddLi := UInt16.ofNat ((byte1.toNat &&& 0x7F) <<< 4 ||| (byte2.toNat &&& 0xF0) >>> 4)
    if oddE = eLiFieldsFollows then
      match i with
      | byte3 :: i =>
        let evenE := UInt8.ofNat ((byte2.toNat &&& 0x08) >>> 3)
        let evenLi := UInt16.ofNat ((byte2.toNat &&& 0x07) <<< 8 ||| byte3.toNat &&& 0xFF)
        let fields : LiFields := ⟨[oddE, evenE], [oddLi, evenLi], 3⟩
        if evenE = eLiFieldsFollows then (deserializeLiFields i).map fields.append else some fields
      | [] => none
    else some ⟨[oddE], [oddLi], 2⟩
  | _ => none

structure NrRlcHeader where
  headerLength : UInt16 := 0
  framingInfo : UInt8 := 0xff
  sequenceNumber : SequenceNumber10 := .ofValue 0xfffa
  /-- With the one of the fixed part. -/
  extensionBits : List UInt8 := []
  lengthIndicators : List UInt16 := []
  deriving DecidableEq

namespace NrRlcHeader

variable (header : NrRlcHeader)

def setFramingInfo (framingInfo : UInt8) : NrRlcHeader :=
  { header with framingInfo := framingInfo &&& 0x03 }

def setSequenceNumber (sequenceNumber : SequenceNumber10) : NrRlcHeader :=
  { header with sequenceNumber := sequenceNumber }

def pushExtensionBit (extensionBit : UInt8) : NrRlcHeader :=
  let extensionBits := header.extensionBits ++ [extensionBit]
  { header with
    extensionBits := extensionBits
    headerLength :=
      if extensionBits.length = 1 then 2 -- Only fixed part
      else if extensionBits.length % 2 = 1 then header.headerLength + 1
      else header.headerLength + 2 }

def pushLengthIndicator (lengthIndicator : UInt16) : NrRlcHeader :=
  { header with lengthIndicators := header.lengthIndicators ++ [lengthIndicator] }

def getSerializedSize : Nat :=
  header.headerLength.toNat

/-- `Serialize`, which looks at the first extension bit whether there is one or not. -/
def serialize : Option (List UInt8) :=
  match header.extensionBits with
  | [] => none
  | extensionBit :: extensionBits => some (
      writeU8 (header.framingInfo.toNat <<< 3 &&& 0x18 ||| extensionBit.toNat <<< 2 &&& 0x04 |||
          header.sequenceNumber.getValue >>> 8 &&& 0x03) ::
        writeU8 (header.sequenceNumber.getValue &&& 0xFF) ::
        serializeLiFields extensionBits header.lengthIndicators)

/-- `Deserialize` into a new header, with the size that it returns. -/
def deserialize (start : List UInt8) : Option (NrRlcHeader × Nat) :=
  (readU8 start).bind fun (byte1, i) => (readU8 i).bind fun (byte2, i) =>
    let extensionBit := UInt8.ofNat ((byte1.toNat &&& 0x04) >>> 2)
    let header : NrRlcHeader := {}
    let header := { header with
      headerLength := 2
      framingInfo := UInt8.ofNat ((byte1.toNat &&& 0x18) >>> 3)
      sequenceNumber := header.sequenceNumber.assign ((byte1.toNat &&& 0x03) <<< 8 ||| byte2.toNat)
      extensionBits := [extensionBit] }
    if extensionBit = dataFieldFollows then some (header, header.getSerializedSize)
    else (deserializeLiFields i).map fun fields =>
      let header := { header with
        headerLength := header.headerLength + fields.headerLength
        extensionBits := header.extensionBits ++ fields.extensionBits
        lengthIndicators := fields.lengthIndicators }
      (header, header.getSerializedSize)

end NrRlcHeader

structure NrRlcAmHeader where
  headerLength : UInt16 := 0
  dataControlBit : UInt8 := 0xff
  resegmentationFlag : UInt8 := 0xff
  pollingBit : UInt8 := 0xff
  framingInfo : UInt8 := 0xff
  sequenceNumber : SequenceNumber10 := .ofValue 0xfffa
  /-- The constructor does not initialise it. -/
  lastSegmentFlag : Option UInt8 := none
  segmentOffset : UInt16 := 0xffff
  lastOffset : UInt16 := 0xffff
  extensionBits : List UInt8 := []
  lengthIndicators : List UInt16 := []
  controlPduType : UInt8 := 0xff
  ackSn : SequenceNumber10 := .ofValue 0xffff
  /-- No number that is pushed is negative. -/
  nackSnList : List Nat := []
  deriving DecidableEq

namespace NrRlcAmHeader

def controlPdu : UInt8 := 0

def dataPdu : UInt8 := 1

def statusPdu : UInt8 := 0

/-- The resegmentation flag of a segment of a PDU. -/
def segment : UInt8 := 1

variable (header : NrRlcAmHeader)

def setDataPdu : NrRlcAmHeader :=
  { header with headerLength := 4, dataControlBit := dataPdu }

def setControlPdu (controlPduType : UInt8) : NrRlcAmHeader :=
  { header with headerLength := 2, dataControlBit := controlPdu, controlPduType := controlPduType }

def isDataPdu : Bool :=
  header.dataControlBit = dataPdu

def isControlPdu : Bool :=
  header.dataControlBit = controlPdu

def setFramingInfo (framingInfo : UInt8) : NrRlcAmHeader :=
  { header with framingInfo := framingInfo &&& 0x03 }

def setSequenceNumber (sequenceNumber : SequenceNumber10) : NrRlcAmHeader :=
  { header with sequenceNumber := sequenceNumber }

def setResegmentationFlag (resegFlag : UInt8) : NrRlcAmHeader :=
  { header with resegmentationFlag := resegFlag &&& 0x01 }

def setPollingBit (pollingBit : UInt8) : NrRlcAmHeader :=
  { header with pollingBit := pollingBit &&& 0x01 }

def setLastSegmentFlag (lsf : UInt8) : NrRlcAmHeader :=
  { header with lastSegmentFlag := some (lsf &&& 0x01) }

def setSegmentOffset (segmentOffset : UInt16) : NrRlcAmHeader :=
  { header with segmentOffset := segmentOffset &&& 0x7FFF }

def pushExtensionBit (extensionBit : UInt8) : NrRlcAmHeader :=
  let extensionBits := header.extensionBits ++ [extensionBit]
  { header with
    extensionBits := extensionBits
    headerLength :=
      if extensionBits.length > 1 then
        if extensionBits.length % 2 = 1 then header.headerLength + 1 else header.headerLength + 2
      else header.headerLength }

def pushLengthIndicator (lengthIndicator : UInt16) : NrRlcAmHeader :=
  { header with lengthIndicators := header.lengthIndicators ++ [lengthIndicator] }

def setAckSn (ackSn : SequenceNumber10) : NrRlcAmHeader :=
  { header with ackSn := ackSn }

/-- `OneMoreNackWouldFitIn`: the bytes are converted to 16 bits. -/
def oneMoreNackWouldFitIn (bytes : UInt16) : Bool :=
  if header.nackSnList.length % 2 = 0 then header.headerLength < bytes
  else (header.headerLength.toNat : Int) < bytes.toNat - 1

def pushNack (nack : Nat) : NrRlcAmHeader :=
  let nackSnList := header.nackSnList ++ [nack]
  { header with
    nackSnList := nackSnList
    headerLength := if nackSnList.length % 2 = 0 then header.headerLength + 1 else header.headerLength + 2 }

def isNackPresent (nack : SequenceNumber10) : Bool :=
  header.nackSnList.contains nack.getValue

def getSerializedSize : Nat :=
  header.headerLength.toNat

/-- The loop over the NACKs. The highest bit of the first one is in the octet before. -/
def serializeNacks : List Nat -> List UInt8
  | [] => []
  | oddNack :: nacks =>
    match nacks with
    | evenNack :: nacks =>
      match nacks with
      | nextNack :: _ =>
        writeU8 (oddNack >>> 1 &&& 0xFF) :: writeU8 (oddNack <<< 7 &&& 0x80 ||| 0x40 ||| evenNack >>> 5 &&& 0x1F) ::
          writeU8 (evenNack <<< 3 &&& 0xF8 ||| 0x04 ||| nextNack >>> 9 &&& 0x01) :: serializeNacks nacks
      | [] =>
        [writeU8 (oddNack >>> 1 &&& 0xFF), writeU8 (oddNack <<< 7 &&& 0x80 ||| 0x40 ||| evenNack >>> 5 &&& 0x1F),
          writeU8 (evenNack <<< 3 &&& 0xF8)]
    | [] => [writeU8 (oddNack >>> 1 &&& 0xFF), writeU8 (oddNack <<< 7 &&& 0x80)]
termination_by structural nacks => nacks

/-- `Serialize`. A data PDU needs an extension bit and a last segment flag. -/
def serialize : Option (List UInt8) :=
  if header.dataControlBit = dataPdu then
    match header.extensionBits with
    | [] => none
    | extensionBit :: extensionBits => header.lastSegmentFlag.map fun lastSegmentFlag =>
      writeU8 (dataPdu.toNat <<< 7 &&& 0x80 ||| header.resegmentationFlag.toNat <<< 6 &&& 0x40 |||
          header.pollingBit.toNat <<< 5 &&& 0x20 ||| header.framingInfo.toNat <<< 3 &&& 0x18 |||
          extensionBit.toNat <<< 2 &&& 0x04 ||| header.sequenceNumber.getValue >>> 8 &&& 0x03) ::
        writeU8 (header.sequenceNumber.getValue &&& 0xFF) ::
        writeU8 (lastSegmentFlag.toNat <<< 7 &&& 0x80 ||| header.segmentOffset.toNat >>> 8 &&& 0x7F) ::
        writeU8 (header.segmentOffset.toNat &&& 0xFF) ::
        serializeLiFields extensionBits header.lengthIndicators
  else
    let first := writeU8 (controlPdu.toNat <<< 7 &&& 0x80 ||| header.controlPduType.toNat <<< 4 &&& 0x70 |||
      header.ackSn.getValue >>> 6 &&& 0x0F)
    match header.nackSnList with
    | [] => some [first, writeU8 (header.ackSn.getValue <<< 2 &&& 0xFC)]
    | nack :: nacks => some (
        first :: writeU8 (header.ackSn.getValue <<< 2 &&& 0xFC ||| 0x02 ||| nack >>> 9 &&& 0x01) ::
          serializeNacks (nack :: nacks))

/-- The loop that reads the NACKs behind the first one, with the length that it adds. It starts in
the octet that says that there is one more. -/
def deserializeNacks (byte : UInt8) : List UInt8 -> Option (List Nat × UInt16)
  | nextByte :: i =>
    let evenNack := (byte.toNat &&& 0x1F) <<< 5 ||| (nextByte.toNat &&& 0xF8) >>> 3
    if (nextByte.toNat &&& 0x04) >>> 2 = 1 then
      match i with
      | middleByte :: finalByte :: i =>
        let oddNack := (nextByte.toNat &&& 0x01) <<< 9 ||| middleByte.toNat <<< 1 ||| (finalByte.toNat &&& 0x80) >>> 7
        if (finalByte.toNat &&& 0x40) >>> 6 = 1 then
          (deserializeNacks finalByte i).map fun (nacks, length) => (evenNack :: oddNack :: nacks, 3 + length)
        else some ([evenNack, oddNack], 3)
      | _ => none
    else some ([evenNack], 1)
  | [] => none

/-- `Deserialize` into a new header, with the size that it returns. -/
def deserialize (start : List UInt8) : Option (NrRlcAmHeader × Nat) :=
  (readU8 start).bind fun (byte1, i) =>
    let header : NrRlcAmHeader := {}
    let header := { header with
      headerLength := 1
      dataControlBit := UInt8.ofNat ((byte1.toNat &&& 0x80) >>> 7) }
    if header.dataControlBit = dataPdu then
      (readU8 i).bind fun (byte2, i) => (readU8 i).bind fun (byte3, i) => (readU8 i).bind fun (byte4, i) =>
        let extensionBit := UInt8.ofNat ((byte1.toNat &&& 0x04) >>> 2)
        let header := { header with
          headerLength := header.headerLength + 3
          resegmentationFlag := UInt8.ofNat ((byte1.toNat &&& 0x40) >>> 6)
          pollingBit := UInt8.ofNat ((byte1.toNat &&& 0x20) >>> 5)
          framingInfo := UInt8.ofNat ((byte1.toNat &&& 0x18) >>> 3)
          sequenceNumber := header.sequenceNumber.assign ((byte1.toNat &&& 0x03) <<< 8 ||| byte2.toNat)
          lastSegmentFlag := some (UInt8.ofNat ((byte3.toNat &&& 0x80) >>> 7))
          segmentOffset := UInt16.ofNat (byte3.toNat &&& 0x7F ||| byte4.toNat)
          extensionBits := [extensionBit] }
        if extensionBit = dataFieldFollows then some (header, header.getSerializedSize)
        else (deserializeLiFields i).map fun fields =>
          let header := { header with
            headerLength := header.headerLength + fields.headerLength
            extensionBits := header.extensionBits ++ fields.extensionBits
            lengthIndicators := fields.lengthIndicators }
          let header := { header with
            lastOffset :=
              if header.resegmentationFlag = segment then
                header.segmentOffset + UInt16.ofNat start.length - header.headerLength
              else header.lastOffset }
          (header, header.getSerializedSize)
    else
      (readU8 i).bind fun (byte2, i) =>
        let header := { header with
          controlPduType := UInt8.ofNat ((byte1.toNat &&& 0x70) >>> 4)
          ackSn := header.ackSn.assign ((byte1.toNat &&& 0x0F) <<< 6 ||| (byte2.toNat &&& 0xFC) >>> 2) }
        if (byte2.toNat &&& 0x02) >>> 1 = 1 then
          -- The first NACK is not preceded by an E2 field.
          (readU8 i).bind fun (byte3, i) => (readU8 i).bind fun (byte4, i) =>
            let first := (byte2.toNat &&& 0x01) <<< 9 ||| byte3.toNat <<< 1 ||| (byte4.toNat &&& 0x80) >>> 7
            (if (byte4.toNat &&& 0x40) >>> 6 = 1 then deserializeNacks byte4 i else some ([], 0)).map
              fun (nacks, length) =>
                let header := { header with headerLength := 4 + length, nackSnList := first :: nacks }
                (header, header.getSerializedSize)
        else
          let header := { header with headerLength := header.headerLength + 1 }
          some (header, header.getSerializedSize)

end NrRlcAmHeader
end Ns3.Nr
