import Ns3.Nr.Rlc.Am.TransmittingSide

/-!
# The receiving side of the acknowledged mode

PDUs are placed in the reception buffer, and reassembled in sequence as soon as the first one that
is missing has been received. A STATUS PDU reports which PDUs are missing.
-/

namespace Ns3.Nr.Am

open SequenceNumber10

structure PduBuffer where
  byteSegments : List AmPdu
  pduComplete : Bool
  deriving DecidableEq

structure ReceivingSide where
  rxonBuffer : Fin 1024 -> Option PduBuffer := fun _ => none
  vrR : SequenceNumber10 := .ofValue 0
  vrMr : SequenceNumber10 := .ofValue windowSize
  vrX : SequenceNumber10 := .ofValue 0
  vrMs : SequenceNumber10 := .ofValue 0
  vrH : SequenceNumber10 := .ofValue 0
  /-- Whether the timer is pending. -/
  reorderingTimer : Bool := false
  statusPduRequested : Bool := false
  statusPduBufferSize : UInt32 := 0
  statusProhibitTimer : Bool := false
  reassembly : Reassembly := {}

namespace ReceivingSide

variable (side : ReceivingSide)

variable (sn : SequenceNumber10)

/-- `it != m_rxonBuffer.end() && it->second.m_pduComplete` for the entry of a number. -/
def complete : Bool :=
  match side.rxonBuffer sn.value with
  | some buffer => buffer.pduComplete
  | none => false

/-- `IsInsideReceivingWindow`, which sets the bases of the bounds. -/
def isInsideReceivingWindow : Bool :=
  let vrR := side.vrR.setModulusBase side.vrR.getValue
  let vrMr := side.vrMr.setModulusBase side.vrR.getValue
  let sn := sn.setModulusBase side.vrR.getValue
  vrR.le sn && sn.lt vrMr

def setWindowBase : ReceivingSide :=
  { side with
    vrR := side.vrR.setModulusBase side.vrR.getValue
    vrMr := side.vrMr.setModulusBase side.vrR.getValue }

/-- A PDU is placed in the reception buffer, unless it has been received before. -/
def place (pdu : AmPdu) : Except Failure ReceivingSide :=
  match side.rxonBuffer sn.value with
  | some buffer => if buffer.byteSegments.length = 1 then .ok side else .error .byteSegments
  | none => .ok { side with rxonBuffer := Function.update side.rxonBuffer sn.value (some ⟨[pdu], true⟩) }

/-- The loop that moves VR(MS) to the first PDU that is not complete. The assertion in it stops it
when it comes back to the number it has started from. -/
def advanceVrMs (firstVrMs : Nat) : Nat -> ReceivingSide -> Except Failure ReceivingSide
  | 0, _ => .error .infiniteLoop
  | rounds + 1, side =>
    if side.complete side.vrMs then
      let side := { side with vrMs := side.vrMs.increment }
      if firstVrMs ≠ side.vrMs.getValue then advanceVrMs firstVrMs rounds side else .error .infiniteLoop
    else .ok side

/-- `ReassembleAndDeliver`. -/
def reassembleAndDeliver (pdu : AmPdu) : Except Failure ReceivingSide :=
  match cutPacket pdu.header.extensionBits pdu.header.lengthIndicators pdu.data with
  | none => .error (.reassembly .noField)
  | some (first, sdus) =>
    match side.reassembly.reassembleAndDeliver false pdu.header.sequenceNumber pdu.header.framingInfo first sdus with
    | .ok reassembly => .ok { side with reassembly := reassembly }
    | .error failure => .error (.reassembly failure)

/-- The PDU of VR(R) has been reassembled. -/
def incrementVrR : ReceivingSide :=
  let vrR := side.vrR.increment
  { side with
    rxonBuffer := Function.update side.rxonBuffer side.vrR.value none
    vrR := vrR.setModulusBase vrR.getValue
    vrX := side.vrX.setModulusBase vrR.getValue
    vrMs := side.vrMs.setModulusBase vrR.getValue
    vrH := side.vrH.setModulusBase vrR.getValue }

/-- The loop that reassembles PDUs and moves VR(R) to the first one that is not complete. -/
def advanceVrR (firstVrR : Nat) : Nat -> ReceivingSide -> Except Failure ReceivingSide
  | 0, _ => .error .infiniteLoop
  | rounds + 1, side =>
    match side.rxonBuffer side.vrR.value with
    | some ⟨byteSegments, true⟩ =>
      match byteSegments with
      | [pdu] =>
        (side.reassembleAndDeliver pdu).bind fun side =>
          let side := side.incrementVrR
          if firstVrR ≠ side.vrR.getValue then advanceVrR firstVrR rounds side else .error .infiniteLoop
      | _ => .error .byteSegments
    | _ => .ok side

/-- The reordering timer is stopped when it is not needed any more, and started when a PDU is
missing. -/
def updateReorderingTimer : Except Failure ReceivingSide :=
  let stops := side.vrX.eq side.vrR ∨ ¬side.isInsideReceivingWindow side.vrX ∧ ¬side.vrX.eq side.vrMr
  let side := if side.reorderingTimer ∧ stops then { side with reorderingTimer := false } else side
  if side.reorderingTimer then .ok side
  else
    (checked .modulusBase gt side.vrH side.vrR).map fun isMissing =>
      if isMissing then { side with reorderingTimer := true, vrX := side.vrH } else side

/-- What follows when VR(MS) has been updated: if it was the PDU of VR(R) that was received, PDUs
are reassembled. -/
def deliverInSequence (seqNumber : SequenceNumber10) : Except Failure ReceivingSide :=
  if seqNumber.eq side.vrR ∧ side.complete seqNumber then
    (advanceVrR side.vrR.getValue 1024 side).bind fun side =>
      { side with vrMr := side.vrR.add windowSize }.updateReorderingTimer
  else side.updateReorderingTimer

/-- What the polling bit of a data PDU asks for. -/
def requestStatusPdu (pollingBit : UInt8) : ReceivingSide :=
  if pollingBit = TransmittingSide.statusReportIsRequested then
    { side with statusPduRequested := true, statusPduBufferSize := 4 }
  else side

/-- The part of `DoReceivePdu` about a data PDU. -/
def receiveData (pdu : AmPdu) : Except Failure ReceivingSide :=
  let seqNumber := pdu.header.sequenceNumber.setModulusBase side.vrR.getValue
  let side := side.requestStatusPdu pdu.header.pollingBit
  let side := side.setWindowBase
  if side.isInsideReceivingWindow seqNumber then
    (side.place seqNumber pdu).bind fun side => (checked .modulusBase ge seqNumber side.vrH).bind fun isHighest =>
      let side := if isHighest then { side with vrH := seqNumber.add 1 } else side
      (advanceVrMs side.vrMs.getValue 1024 side).bind fun side => side.deliverInSequence seqNumber
  else .ok side

def expireReorderingTimer : Except Failure ReceivingSide :=
  let side := { side with reorderingTimer := false, vrMs := side.vrX }
  (advanceVrMs side.vrMs.getValue 1024 side).bind fun side =>
    (checked .modulusBase gt side.vrH side.vrMs).map fun isMissing =>
      let side := if isMissing then { side with reorderingTimer := true, vrX := side.vrH } else side
      { side with statusPduRequested := true }

def expireStatusProhibitTimer : ReceivingSide :=
  { side with statusProhibitTimer := false }

/-- The loop over the numbers to be reported as missing, as long as there is room, with the number
it ends at. -/
def pushNacks (side : ReceivingSide) (bytes : UInt16) : Nat -> SequenceNumber10 -> NrRlcAmHeader ->
    NrRlcAmHeader × SequenceNumber10
  | 0, sn, header => (header, sn)
  | rounds + 1, sn, header =>
    if sn.lt side.vrMs ∧ header.oneMoreNackWouldFitIn bytes then
      let header := if side.complete sn then header else header.pushNack sn.getValue
      pushNacks side bytes rounds sn.increment header
    else (header, sn)

/-- The first number from a given one on that has not been received, up to VR(MS). -/
def nextNotReceived (side : ReceivingSide) : Nat -> SequenceNumber10 -> SequenceNumber10
  | 0, sn => sn
  | rounds + 1, sn => if sn.lt side.vrMs ∧ side.complete sn then nextNotReceived side rounds sn.increment else sn

/-- The header of the STATUS PDU that `DoNotifyTxOpportunity` sends. -/
def buildStatusPdu (bytes : UInt32) : Except Failure NrRlcAmHeader :=
  let header := ({} : NrRlcAmHeader).setControlPdu NrRlcAmHeader.statusPdu
  -- Each number of the two loops has the base of the first one.
  (checked .modulusBase lt side.vrR side.vrMs).bind fun _ =>
    let (header, sn) := side.pushNacks (UInt16.ofNat bytes.toNat) 1024 side.vrR header
    let sn := side.nextNotReceived 1024 sn
    if sn.le side.vrMs then .ok (header.setAckSn sn) else .error .ackSnAboveVrMs

/-- A STATUS PDU has been sent. -/
def statusPduSent : ReceivingSide :=
  { side with statusPduRequested := false, statusPduBufferSize := 0, statusProhibitTimer := true }

end ReceivingSide
end Ns3.Nr.Am
