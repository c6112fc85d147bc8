import Ns3.Nr.Rlc.DataField

/-!
# The transmitting side of the unacknowledged mode
-/

namespace Ns3.Nr

/-- A packet with the header of the unacknowledged mode. -/
structure UmPdu where
  header : NrRlcHeader
  data : List UInt8
  deriving DecidableEq

/-- `GetSize`. -/
def UmPdu.getSize (pdu : UmPdu) : Nat :=
  pdu.header.getSerializedSize + pdu.data.length

namespace Um

inductive TransmitFailure where
  /-- The first element of an empty data field. -/
  | noDataField
  /-- A header that is longer than the size it says. -/
  | addHeader
  deriving DecidableEq

/-- `AddHeader` gives the header as many bytes as its size says. It checks nothing, and writes over the
data where the header is longer; such a run ends here. -/
def addHeader (header : NrRlcHeader) (data : List UInt8) : Except TransmitFailure UmPdu :=
  match header.serialize with
  | some bytes => if bytes.length = header.getSerializedSize then .ok ⟨header, data⟩ else .error .addHeader
  | none => .error .addHeader

structure TransmittingSide where
  maxTxBufferSize : UInt32 := 10240
  enablePdcpDiscarding : Bool := true
  discardTimerMs : UInt32 := 0
  packetDelayBudgetMs : UInt16 := 65535
  txBuffer : List TxPdu := []
  txBufferSize : UInt32 := 0
  sequenceNumber : SequenceNumber10 := .ofValue 0

namespace TransmittingSide

variable (side : TransmittingSide)

/-- How long the packet in front of the buffer has waited. The times are nanoseconds. -/
def headOfLineDelayInMs (now : Nat) : UInt32 :=
  match side.txBuffer with
  | [] => 0
  | front :: _ => UInt32.ofNat ((now - front.waitingSince) / 1000000)

/-- Whether an SDU is reported because of the delay of the packet in front. -/
def discards (now : Nat) : Bool :=
  let discardTimerMs := if 0 < side.discardTimerMs then side.discardTimerMs else side.packetDelayBudgetMs.toUInt32
  side.enablePdcpDiscarding && discardTimerMs < side.headOfLineDelayInMs now

/-- Whether an SDU has room in the buffer. -/
def hasRoom (p : List UInt8) : Bool :=
  side.txBufferSize + UInt32.ofNat p.length ≤ side.maxTxBufferSize

/-- `DoTransmitPdcpPdu`, with whether the SDU is reported through the drop trace. What is reported
because of the delay is stored all the same. -/
def doTransmitPdcpPdu (p : List UInt8) (now : Nat) : TransmittingSide × Bool :=
  if side.hasRoom p then
    ({ side with
      txBuffer := side.txBuffer ++ [⟨⟨p, .fullSdu⟩, now⟩]
      txBufferSize := side.txBufferSize + UInt32.ofNat p.length }, side.discards now)
  else (side, true)

/-- `DoNotifyTxOpportunity`, with the PDU that is given to the MAC. -/
def doNotifyTxOpportunity (bytes : UInt32) :
    Except TransmitFailure (TransmittingSide × Option UmPdu) :=
  if bytes ≤ 2 then .ok (side, none)
  else
    match side.txBuffer with
    | [] => .ok (side, none)
    | firstSegment :: txBuffer =>
      let field : DataField NrRlcHeader :=
        { txBuffer := txBuffer
          txBufferSize := side.txBufferSize - UInt32.ofNat firstSegment.pdu.getSize
          header := {}
          dataField := [] }
      let field := fillDataField txBuffer firstSegment (bytes.toNat - 2) 1 field
      let header := field.header.setSequenceNumber side.sequenceNumber
      let side := { side with
        txBuffer := field.txBuffer
        txBufferSize := field.txBufferSize
        sequenceNumber := side.sequenceNumber.increment }
      match field.dataField with
      | [] => .error .noDataField
      | first :: segments =>
        let framing := framingInfo first ((first :: segments).getLast (List.cons_ne_nil _ _))
        (addHeader (header.setFramingInfo framing) (joined (first :: segments))).map fun packet => (side, some packet)

end TransmittingSide
end Um
end Ns3.Nr
