import Ns3.Internet.TcpHeader.Options
import Mathlib.Tactic.IntervalCases

/-!
# The TCP header

`TcpHeader::Serialize` writes the options and pads them with zeros to words. `Deserialize` reads
options until the data offset or an END; the size that it returns is computed from the options
again.
-/

namespace Ns3.Internet

open Network.BufferIterator

/-- The checksum over a buffer that starts with the header, if checksums are calculated. -/
abbrev Checksum := Option (List UInt8 -> UInt16)

structure TcpHeader where
  sourcePort : UInt16 := 0
  destinationPort : UInt16 := 0
  sequenceNumber : UInt32 := 0
  ackNumber : UInt32 := 0
  /-- In words. -/
  length : UInt8 := 5
  flags : UInt8 := 0
  windowSize : UInt16 := 0xffff
  urgentPointer : UInt16 := 0
  goodChecksum : Bool := true
  options : List TcpOption := []
  optionsLen : Nat := 0
  deriving DecidableEq

namespace TcpHeader

def maxOptionsLen : Nat := 40

/-- The sum of the sizes of the options. -/
def sizeOf (options : List TcpOption) : Nat :=
  (options.map (·.getSerializedSize)).sum

variable (header : TcpHeader)

/-- The list may not include padding to the word boundary. -/
def calculateHeaderLength : UInt8 :=
  let len := 20 + sizeOf header.options
  let len := if len % 4 ≠ 0 then len + (4 - len % 4) else len
  UInt8.ofNat (len / 4)

def getSerializedSize : Nat :=
  header.calculateHeaderLength.toNat * 4

/-- `AppendOption`, which keeps no END. -/
def appendOption (option : TcpOption) : Bool × TcpHeader :=
  if header.optionsLen + option.getSerializedSize ≤ maxOptionsLen then
    if TcpOption.isKindKnown option.getKind then
      if option.getKind ≠ 0 then
        let optionsLen := header.optionsLen + option.getSerializedSize
        (true, { header with
          options := header.options ++ [option]
          optionsLen := optionsLen
          length := UInt8.ofNat ((20 + 3 + optionsLen) / 4) })
      else (true, header)
    else (false, header)
  else (false, header)

/-- Calls of `AppendOption`. -/
def appendOptions (options : List TcpOption) : TcpHeader :=
  options.foldl (fun header option => (header.appendOption option).2) header

/-- The loop that pads with END. -/
def padding (optionLen : Nat) : List UInt8 :=
  List.replicate ((4 - optionLen % 4) % 4) 0

/-- The word with the data offset; reserved bits are all zero. -/
def field : UInt16 :=
  header.length.toUInt16 <<< 12 ||| header.flags.toUInt16

/-- The fields in front of the checksum. -/
def beforeChecksum : List UInt8 :=
  writeHtonU16 header.sourcePort ++ writeHtonU16 header.destinationPort ++ writeHtonU32 header.sequenceNumber ++
    writeHtonU32 header.ackNumber ++ writeHtonU16 header.field ++ writeHtonU16 header.windowSize

/-- What is written behind the checksum. -/
def afterChecksum : List UInt8 :=
  writeHtonU16 header.urgentPointer ++ header.options.flatMap TcpOption.serialize ++ padding (sizeOf header.options)

/-- `WriteU16`: in host format. -/
def writeU16 (data : UInt16) : List UInt8 :=
  [data.toUInt8, (data >>> 8).toUInt8]

variable (checksum : Checksum)

/-- `Serialize` in front of a payload. The checksum is written over a zero one. -/
def serialize (payload : List UInt8) (header : TcpHeader) : List UInt8 :=
  let withZero := header.beforeChecksum ++ writeHtonU16 0 ++ header.afterChecksum
  match checksum with
  | none => withZero
  | some calculate => header.beforeChecksum ++ writeU16 (calculate (withZero ++ payload)) ++ header.afterChecksum

/-- The loop over the options, with the options and their length. An option without a size would be
read forever: there are at most as many rounds as bytes otherwise. -/
def readOptions : Nat -> Nat -> List UInt8 -> Option (List TcpOption × Nat)
  | 0, _, _ => none
  | fuel + 1, optionLen, i =>
    if optionLen = 0 then some ([], 0)
    else i.head?.bind fun kind => (TcpOption.deserialize kind i).bind fun (optionSize, op) =>
      if optionSize ≠ op.getSerializedSize then some ([], 0)
      else if optionLen ≥ optionSize then
        (next optionSize i).bind fun i =>
          if op.getKind = 0 then (next (optionLen - optionSize) i).map fun _ => ([op], optionLen)
          else (readOptions fuel (optionLen - optionSize) i).map fun further =>
            (op :: further.1, optionSize + further.2)
      else some ([], 0)

/-- Is the checksum zero, if it is calculated? -/
def isGood (start : List UInt8) : Bool :=
  match checksum with
  | none => true
  | some calculate => calculate start = 0

/-- `Deserialize` into a new header, with the size that it returns. Fewer than 5 words are an
illegal length. -/
def deserialize (start : List UInt8) : Option (TcpHeader × Nat) :=
  (readNtohU16 start).bind fun sourcePort => (readNtohU16 sourcePort.2).bind fun destinationPort =>
    (readNtohU32 destinationPort.2).bind fun sequenceNumber => (readNtohU32 sequenceNumber.2).bind fun ackNumber =>
      (readNtohU16 ackNumber.2).bind fun field => (readNtohU16 field.2).bind fun windowSize =>
        (next 2 windowSize.2).bind fun i => (readNtohU16 i).bind fun urgentPointer =>
          let header : TcpHeader :=
            { sourcePort := sourcePort.1
              destinationPort := destinationPort.1
              sequenceNumber := sequenceNumber.1
              ackNumber := ackNumber.1
              length := (field.1 >>> 12).toUInt8
              flags := (field.1 &&& 0xff).toUInt8
              windowSize := windowSize.1
              urgentPointer := urgentPointer.1 }
          let optionLen := (header.length.toNat - 5) * 4
          if header.length.toNat < 5 ∨ optionLen > maxOptionsLen then some (header, 20)
          else (readOptions (optionLen + 1) optionLen urgentPointer.2).map fun options =>
            let header := { header with
              options := options.1
              optionsLen := options.2
              goodChecksum := isGood checksum start }
            (header, header.getSerializedSize)

/-- `RemoveHeader` of a packet with these bytes, with what is left. -/
def removeHeader (bytes : List UInt8) : Option (TcpHeader × List UInt8) :=
  (deserialize checksum bytes).bind fun header => (next header.2 bytes).map fun payload => (header.1, payload)

end TcpHeader

end Ns3.Internet
