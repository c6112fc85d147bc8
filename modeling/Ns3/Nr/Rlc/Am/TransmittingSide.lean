import Ns3.Nr.Rlc.Reassembly

/-!
# The transmitting side of the acknowledged mode

A PDU that has been transmitted is kept until it is acknowledged, in one of two buffers of 1024
entries: the transmitted buffer, or the retransmission buffer if it is considered for
retransmission.
-/

namespace Ns3.Nr

/-- A packet with the header of the acknowledged mode. -/
structure AmPdu where
  header : NrRlcAmHeader
  data : List UInt8
  deriving DecidableEq

/-- `GetSize`. -/
def AmPdu.getSize (pdu : AmPdu) : Nat :=
  pdu.header.getSerializedSize + pdu.data.length

namespace Am

/-- Where the code fails an assertion, or does what it must not do. -/
inductive Failure where
  /-- The assertions on a stingy MAC. -/
  | txOpportunityTooSmall
  | txWindow
  | noPduForRetx
  | snOutsideTxWindow
  /-- The first element of an empty data field. -/
  | noDataField
  /-- A header that is longer than the size it says. -/
  | addHeader
  | nackedPduMissing
  | pduInBothBuffers
  | infiniteLoop
  | byteSegments
  | modulusBase
  | ackSnAboveVrMs
  | reassembly (failure : ReassemblyFailure)
  deriving DecidableEq

/-- `AddHeader` gives the header as many bytes as its size says. It checks nothing, and writes over the
data where the header is longer; such a run ends here. -/
def addHeader (header : NrRlcAmHeader) (data : List UInt8) : Except Failure AmPdu :=
  match header.serialize with
  | some bytes => if bytes.length = header.getSerializedSize then .ok ⟨header, data⟩ else .error .addHeader
  | none => .error .addHeader

structure RetxPdu where
  pdu : Option AmPdu := none
  retxCount : UInt16 := 0
  deriving DecidableEq

def windowSize : Nat := 512

def pollPdu : UInt32 := 1

def pollByte : UInt32 := 50

structure TransmittingSide where
  maxTxBufferSize : UInt32 := 10240
  txOpportunityForRetxAlwaysBigEnough : Bool := false
  txonBuffer : List TxPdu := []
  txonBufferSize : UInt32 := 0
  retxBuffer : Fin 1024 -> RetxPdu := fun _ => {}
  retxBufferSize : UInt32 := 0
  txedBuffer : Fin 1024 -> RetxPdu := fun _ => {}
  txedBufferSize : UInt32 := 0
  vtA : SequenceNumber10 := .ofValue 0
  vtMs : SequenceNumber10 := .ofValue windowSize
  vtS : SequenceNumber10 := .ofValue 0
  pollSn : SequenceNumber10 := .ofValue 0
  pduWithoutPoll : UInt32 := 0
  byteWithoutPoll : UInt32 := 0
  /-- Whether the timer is pending. -/
  pollRetransmitTimer : Bool := false
  pollRetransmitTimerJustExpired : Bool := false

namespace TransmittingSide

variable (side : TransmittingSide)

/-- `DoTransmitPdcpPdu`, with whether the SDU is reported through the drop trace. -/
def doTransmitPdcpPdu (p : List UInt8) (now : Nat) : TransmittingSide × Bool :=
  if side.txonBufferSize + UInt32.ofNat p.length ≤ side.maxTxBufferSize ∨ side.maxTxBufferSize = 0 then
    ({ side with
      txonBuffer := side.txonBuffer ++ [⟨⟨p, .fullSdu⟩, now⟩]
      txonBufferSize := side.txonBufferSize + UInt32.ofNat p.length }, false)
  else (side, true)

variable (sn : Fin 1024)

/-- A PDU moves from the transmitted buffer to the retransmission buffer. -/
def moveToRetxBuffer (pdu : AmPdu) : TransmittingSide :=
  { side with
    retxBuffer := Function.update side.retxBuffer sn ⟨some pdu, (side.txedBuffer sn).retxCount⟩
    retxBufferSize := side.retxBufferSize + UInt32.ofNat pdu.getSize
    txedBuffer := Function.update side.txedBuffer sn {}
    txedBufferSize := side.txedBufferSize - UInt32.ofNat pdu.getSize }

/-- A PDU that has been retransmitted moves back. -/
def moveToTxedBuffer (pdu : AmPdu) : TransmittingSide :=
  { side with
    txedBuffer := Function.update side.txedBuffer sn ⟨some pdu, (side.retxBuffer sn).retxCount + 1⟩
    txedBufferSize := side.txedBufferSize + UInt32.ofNat pdu.getSize
    retxBuffer := Function.update side.retxBuffer sn {}
    retxBufferSize := side.retxBufferSize - UInt32.ofNat pdu.getSize }

/-- A PDU of the transmitted buffer is acknowledged. Its count stays. -/
def releaseTxed (pdu : AmPdu) : TransmittingSide :=
  { side with
    txedBuffer := Function.update side.txedBuffer sn { side.txedBuffer sn with pdu := none }
    txedBufferSize := side.txedBufferSize - UInt32.ofNat pdu.getSize }

/-- A PDU of the retransmission buffer is acknowledged. -/
def releaseRetx (pdu : AmPdu) : TransmittingSide :=
  { side with
    retxBuffer := Function.update side.retxBuffer sn {}
    retxBufferSize := side.retxBufferSize - UInt32.ofNat pdu.getSize }

/-- What follows when a PDU requests a STATUS PDU. -/
def poll : TransmittingSide :=
  { side with
    pollRetransmitTimerJustExpired := false
    pduWithoutPoll := 0
    byteWithoutPoll := 0
    pollSn := side.vtS.sub 1
    pollRetransmitTimer := true }

def statusReportNotRequested : UInt8 := 0

def statusReportIsRequested : UInt8 := 1

/-- The branch of `DoNotifyTxOpportunity` that sends data of the retransmission buffer: the first
PDU in it, if it is not larger than the opportunity. -/
def retransmit (bytes : UInt32) : Except Failure (TransmittingSide × Option AmPdu) :=
  if side.vtA.lt side.vtS then
    match (side.vtA.upTo side.vtS).findSome? fun sn =>
      (side.retxBuffer sn.value).pdu.map fun pdu => (sn.value, pdu) with
    | none => .error .noPduForRetx
    | some (sn, pdu) =>
      if pdu.getSize ≤ bytes.toNat ∨ side.txOpportunityForRetxAlwaysBigEnough then
        let polls := side.txonBuffer.isEmpty ∧ side.retxBufferSize = UInt32.ofNat pdu.getSize ∨
          side.vtS.ge side.vtMs ∨ side.pollRetransmitTimerJustExpired
        let header := pdu.header.setPollingBit (if polls then statusReportIsRequested else statusReportNotRequested)
        (addHeader header pdu.data).map fun packet =>
          ((if polls then side.poll else side).moveToTxedBuffer sn pdu, some packet)
      else .ok (side, none)
  else .error .txWindow

def pduFlag : UInt8 := 0

def lastPduSegment : UInt8 := 1

/-- The header of a new PDU, once the loop over the segments has pushed the extension bits and
length indicators. -/
def newHeader (header : NrRlcAmHeader) (sn : SequenceNumber10) (framing pollingBit : UInt8) : NrRlcAmHeader :=
  (((((header.setSequenceNumber sn).setResegmentationFlag pduFlag).setLastSegmentFlag lastPduSegment).setSegmentOffset
    0).setFramingInfo framing).setPollingBit pollingBit

/-- A new PDU is stored in the transmitted buffer. -/
def store (packet : AmPdu) : TransmittingSide :=
  { side with
    txedBufferSize := side.txedBufferSize + UInt32.ofNat packet.getSize
    txedBuffer := Function.update side.txedBuffer sn ⟨some packet, 0⟩ }

/-- `m_pduWithoutPoll++` and `m_byteWithoutPoll += packet->GetSize()`. -/
def countWithoutPoll (size : Nat) : TransmittingSide :=
  { side with
    pduWithoutPoll := side.pduWithoutPoll + 1
    byteWithoutPoll := side.byteWithoutPoll + UInt32.ofNat size }

/-- Whether a new PDU requests a STATUS PDU. -/
def pollsNew : Bool :=
  pollPdu ≤ side.pduWithoutPoll ∨ pollByte ≤ side.byteWithoutPoll ∨
    side.txonBuffer.isEmpty ∧ side.retxBufferSize = 0 ∨ side.vtS.ge side.vtMs ∨ side.pollRetransmitTimerJustExpired

/-- The rest of `DoNotifyTxOpportunity`, which builds a new PDU from the transmission buffer. -/
def buildNewPdu (bytes : UInt32) : Except Failure (TransmittingSide × Option AmPdu) :=
  match side.txonBuffer with
  | [] => .ok (side, none)
  | firstSegment :: txonBuffer =>
    let field : DataField NrRlcAmHeader :=
      { txBuffer := txonBuffer
        txBufferSize := side.txonBufferSize - UInt32.ofNat firstSegment.pdu.getSize
        header := ({} : NrRlcAmHeader).setDataPdu
        dataField := [] }
    let field := fillDataField txonBuffer firstSegment (bytes.toNat - 4) 1 field
    let sn := side.vtS
    let side := { side with
      txonBuffer := field.txBuffer
      txonBufferSize := field.txBufferSize
      vtS := side.vtS.increment }
    if sn.lt side.vtMs ∧ sn.ge side.vtA then
      match field.dataField with
      | [] => .error .noDataField
      | first :: segments =>
        let framing := framingInfo first ((first :: segments).getLast (List.cons_ne_nil _ _))
        let data := joined (first :: segments)
        let side := side.countWithoutPoll data.length
        let polls := side.pollsNew
        let header := newHeader field.header sn framing
          (if polls then statusReportIsRequested else statusReportNotRequested)
        (addHeader header data).map fun packet =>
          ((if polls then side.poll else side).store sn.value packet, some packet)
    else .error .snOutsideTxWindow

/-- `DoNotifyTxOpportunity` when no STATUS PDU is to be sent. -/
def doNotifyTxOpportunity (bytes : UInt32) : Except Failure (TransmittingSide × Option AmPdu) :=
  if bytes < 4 then .error .txOpportunityTooSmall
  else if 0 < side.retxBufferSize then side.retransmit bytes
  else if 0 < side.txonBufferSize then
    if bytes < 7 then .error .txOpportunityTooSmall
    else if side.vtS.le side.vtMs then
      -- A stalled window.
      if side.vtS.eq side.vtMs then .ok (side, none) else side.buildNewPdu bytes
    else .error .txWindow
  else .ok (side, none)

/-- `m_vtA.SetModulusBase(m_vtA)` and the same for the variables that are compared with it. -/
def setModulusBase : TransmittingSide :=
  { side with
    vtA := side.vtA.setModulusBase side.vtA.getValue
    vtS := side.vtS.setModulusBase side.vtA.getValue
    vtMs := side.vtMs.setModulusBase side.vtA.getValue }

/-- The body of the loop over the numbers below the acknowledged one, for one that is not
acknowledged. -/
def nackSn : Except Failure TransmittingSide :=
  match (side.txedBuffer sn).pdu with
  | some pdu => .ok (side.moveToRetxBuffer sn pdu)
  | none => if (side.retxBuffer sn).pdu.isSome then .ok side else .error .nackedPduMissing

/-- The body of the loop for a number that is acknowledged. -/
def ackSn : Except Failure TransmittingSide :=
  match (side.txedBuffer sn).pdu, (side.retxBuffer sn).pdu with
  | some pdu, none => .ok (side.releaseTxed sn pdu)
  | some _, some _ => .error .pduInBothBuffers
  | none, some pdu => .ok (side.releaseRetx sn pdu)
  | none, none => .ok side

/-- The timer is stopped when the number that it was started for is reported. -/
def stopPollRetransmitTimer (sn : SequenceNumber10) : TransmittingSide :=
  if side.pollRetransmitTimer ∧ sn.getValue = side.pollSn.getValue then { side with pollRetransmitTimer := false }
  else side

/-- VT(A) moves on, and the numbers are compared relative to it from now on. -/
def incrementVtA : TransmittingSide :=
  { side with
    vtA := side.vtA.increment
    vtMs := side.vtA.increment.add windowSize }.setModulusBase

/-- `for (sn = m_vtA; sn < ackSn && sn < m_vtS; sn++)`. -/
def receiveStatusFrom (header : NrRlcAmHeader) :
    Nat -> TransmittingSide -> (sn ackSn : SequenceNumber10) -> (incrementVtA : Bool) -> Except Failure TransmittingSide
  | 0, side, _, _, _ => .ok side
  | rounds + 1, side, sn, ackSn, incrementVtA =>
    if sn.lt ackSn ∧ sn.lt side.vtS then
      let side := side.stopPollRetransmitTimer sn
      if header.isNackPresent sn then
        (side.nackSn sn.value).bind fun side => receiveStatusFrom header rounds side sn.increment ackSn false
      else
        (side.ackSn sn.value).bind fun side =>
          if incrementVtA then
            let side := side.incrementVtA
            receiveStatusFrom header rounds side (sn.setModulusBase side.vtA.getValue).increment
              (ackSn.setModulusBase side.vtA.getValue) true
          else receiveStatusFrom header rounds side sn.increment ackSn false
    else .ok side

/-- The part of `DoReceivePdu` about a STATUS PDU. -/
def receiveStatus (header : NrRlcAmHeader) : Except Failure TransmittingSide :=
  let side := side.setModulusBase
  receiveStatusFrom header 1024 side side.vtA (header.ackSn.setModulusBase side.vtA.getValue) true

/-- The round of the loop of `ExpirePollRetransmitTimer`. -/
def considerForRetx (sn : SequenceNumber10) : TransmittingSide :=
  match (side.txedBuffer sn.value).pdu with
  | some pdu => side.moveToRetxBuffer sn.value pdu
  | none => side

def expirePollRetransmitTimer : Except Failure TransmittingSide :=
  let side := { side with pollRetransmitTimer := false, pollRetransmitTimerJustExpired := true }
  if side.vtS.le side.vtMs then
    if side.txonBufferSize = 0 ∧ side.retxBufferSize = 0 ∨ side.vtS.eq side.vtMs then
      .ok ((side.vtA.upTo side.vtS).foldl considerForRetx side)
    else .ok side
  else .error .txWindow

end TransmittingSide
end Am
end Ns3.Nr
