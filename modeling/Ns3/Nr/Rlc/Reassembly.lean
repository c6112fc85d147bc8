import Ns3.Nr.Rlc.DataField

/-!
# Reassembly

The packets of a PDU are cut out at its length indicators, and joined with what was kept of the PDU
before.
-/

namespace Ns3.Nr

inductive ReassemblyFailure where
  /-- An extension bit or a length indicator is popped that is not there. -/
  | noField
  | noKeptSegment
  /-- The branches that log an internal error. -/
  | transitionNotPossible
  deriving DecidableEq

inductive ReassemblingState where
  | waitingS0Full
  | waitingSiSf
  deriving DecidableEq

structure Reassembly where
  reassemblingState : ReassemblingState := .waitingS0Full
  keepS0 : Option (List UInt8) := none
  expectedSeqNumber : SequenceNumber10 := .ofValue 0
  /-- The SDUs handed to `ReceivePdcpPdu` so far. -/
  delivered : List (List UInt8) := []

/-- The packets that the extension bits and the length indicators cut a packet into. -/
def cutPacket : List UInt8 -> List UInt16 -> List UInt8 -> Option (List UInt8 × List (List UInt8))
  | [], _, _ => none
  | extensionBit :: extensionBits, lengthIndicators, packet =>
    if extensionBit = 0 then some (packet, [])
    else
      match lengthIndicators with
      | [] => none
      | li :: lengthIndicators =>
        (cutPacket extensionBits lengthIndicators (packet.drop li.toNat)).map fun (next, sdus) =>
          (packet.take li.toNat, next :: sdus)
termination_by structural extensionBits => extensionBits

namespace Reassembly

variable (reassembly : Reassembly)

/-- All packets are delivered. -/
def deliver (sdus : List (List UInt8)) : Reassembly :=
  { reassembly with reassemblingState := .waitingS0Full, delivered := reassembly.delivered ++ sdus }

/-- The last packet is kept, and the ones in front of it are delivered. -/
def deliverAndKeep (first : List UInt8) (sdus : List (List UInt8)) : Reassembly :=
  { reassembly with
    reassemblingState := .waitingSiSf
    keepS0 := (first :: sdus).getLast?
    delivered := reassembly.delivered ++ (first :: sdus).dropLast }

/-- No SDU without its beginning is waited for. Its end is discarded where the mode or a loss allows
it. -/
def reassembleFull (discards : Bool) (framing : UInt8) (first : List UInt8)
    (sdus : List (List UInt8)) : Except ReassemblyFailure Reassembly :=
  if framing = firstByte ||| lastByte then .ok (reassembly.deliver (first :: sdus))
  else if framing = firstByte ||| noLastByte then .ok (reassembly.deliverAndKeep first sdus)
  else if discards ∧ framing = noFirstByte ||| lastByte then .ok (reassembly.deliver sdus)
  else if discards ∧ framing = noFirstByte ||| noLastByte then
    match sdus with
    | [] => .ok (reassembly.deliver [])
    | next :: sdus => .ok (reassembly.deliverAndKeep next sdus)
  else .error .transitionNotPossible

/-- The rest of an SDU is waited for, and nothing was lost. -/
def reassembleSegments (framing : UInt8) (first : List UInt8) (sdus : List (List UInt8)) :
    Except ReassemblyFailure Reassembly :=
  match reassembly.keepS0 with
  | none => .error .noKeptSegment
  | some kept =>
    if framing = noFirstByte ||| lastByte then
      .ok ({ reassembly with keepS0 := some (kept ++ first) }.deliver ((kept ++ first) :: sdus))
    else if framing = noFirstByte ||| noLastByte then .ok (reassembly.deliverAndKeep (kept ++ first) sdus)
    else .error .transitionNotPossible

/-- `ReassembleAndDeliver` of the packets of a PDU. The unacknowledged mode may discard the end of
an SDU although nothing was lost. -/
def reassembleAndDeliver (discards : Bool) (sn : SequenceNumber10) (framing : UInt8)
    (first : List UInt8) (sdus : List (List UInt8)) : Except ReassemblyFailure Reassembly :=
  if sn.eq reassembly.expectedSeqNumber then
    let reassembly := { reassembly with expectedSeqNumber := reassembly.expectedSeqNumber.increment }
    match reassembly.reassemblingState with
    | .waitingS0Full => reassembly.reassembleFull discards framing first sdus
    | .waitingSiSf => reassembly.reassembleSegments framing first sdus
  else
    let reassembly := { reassembly with expectedSeqNumber := sn.add 1 }
    match reassembly.reassemblingState with
    | .waitingS0Full => reassembly.reassembleFull true framing first sdus
    | .waitingSiSf => { reassembly with keepS0 := none }.reassembleFull true framing first sdus

end Reassembly
end Ns3.Nr
