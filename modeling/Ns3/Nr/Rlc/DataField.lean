import Ns3.Nr.Rlc.Header

/-!
# The data field of a PDU

Both modes fill a PDU in the same loop: SDUs of the transmission buffer are taken as long as there
is room, the last one perhaps only in part, and a status tag says which part of its SDU a packet is.
-/

namespace Ns3.Nr

/-- The status of `NrRlcSduStatusTag`. -/
inductive SduStatus where
  | fullSdu
  | firstSegment
  | middleSegment
  | lastSegment
  deriving DecidableEq

/-- A packet with its status tag. -/
structure Segment where
  bytes : List UInt8
  status : SduStatus
  deriving DecidableEq

/-- `GetSize`. -/
def Segment.getSize (segment : Segment) : Nat :=
  segment.bytes.length

/-- An entry of a transmission buffer. -/
structure TxPdu where
  pdu : Segment
  waitingSince : Nat
  deriving DecidableEq

/-- What the headers of the data PDUs have in common. -/
class DataHeader (Header : Type) where
  pushExtensionBit : Header -> UInt8 -> Header
  pushLengthIndicator : Header -> UInt16 -> Header

instance : DataHeader NrRlcHeader where
  pushExtensionBit := NrRlcHeader.pushExtensionBit
  pushLengthIndicator := NrRlcHeader.pushLengthIndicator

instance : DataHeader NrRlcAmHeader where
  pushExtensionBit := NrRlcAmHeader.pushExtensionBit
  pushLengthIndicator := NrRlcAmHeader.pushLengthIndicator

open DataHeader

/-- What the loop over the segments changes. -/
structure DataField (Header : Type) where
  txBuffer : List TxPdu
  txBufferSize : UInt32
  header : Header
  dataField : List Segment

variable {Header : Type}

/-- The tags of the new segment and of the remaining one when a packet is cut. -/
def splitStatus : SduStatus -> SduStatus × SduStatus
  | .fullSdu => (.firstSegment, .lastSegment)
  | .lastSegment => (.middleSegment, .lastSegment)
  | status => (status, status)

/-- The tag of a segment that turned out to be all that was left. -/
def wholeStatus : SduStatus -> SduStatus
  | .firstSegment => .fullSdu
  | .middleSegment => .lastSegment
  | status => status

/-- The branch of the loop that takes at most the given size of a packet, which ends the data field.
-/
def DataField.takeSegment [DataHeader Header] (field : DataField Header) (firstSegment : TxPdu)
    (nextSegmentSize : Nat) : DataField Header :=
  let currSegmentSize := min firstSegment.pdu.getSize nextSegmentSize
  let (newTag, oldTag) := splitStatus firstSegment.pdu.status
  let remaining : Segment := ⟨firstSegment.pdu.bytes.drop currSegmentSize, oldTag⟩
  let header := pushExtensionBit field.header dataFieldFollows
  let taken := firstSegment.pdu.bytes.take currSegmentSize
  if 0 < remaining.getSize then
    -- The remaining segment is given back.
    { field with
      txBuffer := { firstSegment with pdu := remaining } :: field.txBuffer
      txBufferSize := field.txBufferSize + UInt32.ofNat remaining.getSize
      header := header
      dataField := field.dataField ++ [⟨taken, newTag⟩] }
  else { field with header := header, dataField := field.dataField ++ [⟨taken, wholeStatus newTag⟩] }

/-- The branch that takes a packet as the last one of the data field. -/
def DataField.takeLast [DataHeader Header] (field : DataField Header) (firstSegment : Segment) : DataField Header :=
  { field with
    header := pushExtensionBit field.header dataFieldFollows
    dataField := field.dataField ++ [firstSegment] }

/-- The branch that takes a packet with a length indicator. -/
def DataField.takeFollowed [DataHeader Header] (field : DataField Header) (firstSegment : Segment) :
    DataField Header :=
  let header := pushExtensionBit field.header eLiFieldsFollows
  { field with
    header := pushLengthIndicator header (UInt16.ofNat firstSegment.getSize)
    dataField := field.dataField ++ [firstSegment] }

/-- The packet in front of a transmission buffer is removed. -/
def DataField.pop (field : DataField Header) (front : TxPdu) (txBuffer : List TxPdu) : DataField Header :=
  { field with
    txBuffer := txBuffer
    txBufferSize := field.txBufferSize - UInt32.ofNat front.pdu.getSize }

/-- The loop over the segments, from a first segment that has been removed from the buffer. A packet
of more than 2047 bytes has no length indicator, so it ends the data field. -/
def fillDataField [DataHeader Header] (txBuffer : List TxPdu) (firstSegment : TxPdu)
    (nextSegmentSize nextSegmentId : Nat) (field : DataField Header) : DataField Header :=
  if firstSegment.pdu.getSize = 0 ∨ nextSegmentSize = 0 then field
  else if nextSegmentSize < firstSegment.pdu.getSize ∨ 2047 < firstSegment.pdu.getSize then
    field.takeSegment firstSegment nextSegmentSize
  else if nextSegmentSize - firstSegment.pdu.getSize ≤ 2 then field.takeLast firstSegment.pdu
  else
    match txBuffer with
    | [] => field.takeLast firstSegment.pdu
    | next :: txBuffer =>
      fillDataField txBuffer next
        (nextSegmentSize - ((if nextSegmentId % 2 = 1 then 2 else 1) + firstSegment.pdu.getSize))
        (nextSegmentId + 1) ((field.takeFollowed firstSegment.pdu).pop next txBuffer)
termination_by structural txBuffer

def firstByte : UInt8 := 0x00

def noFirstByte : UInt8 := 0x02

def lastByte : UInt8 := 0x00

def noLastByte : UInt8 := 0x01

/-- The framing info, from the tags of the first and of the last segment. -/
def framingInfo (first last : Segment) : UInt8 :=
  (if first.status = .fullSdu ∨ first.status = .firstSegment then firstByte else noFirstByte) |||
    if last.status = .fullSdu ∨ last.status = .lastSegment then lastByte else noLastByte

/-- The data field as the bytes of a packet. -/
def joined (dataField : List Segment) : List UInt8 :=
  dataField.flatMap Segment.bytes

end Ns3.Nr
