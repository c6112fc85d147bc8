import Ns3.Nr.Rlc.Am.CorrectPeer
import Ns3.Nr.Rlc.Am.ReceiveWindow
import Ns3.Nr.Rlc.Am.Stream

/-!
# A sending and a receiving entity

The PDUs in flight are lost or arrive in any order. Beside the two entities, a state keeps what an
observer knows: which SDUs were accepted, the unreduced numbers of the PDUs, and which PDUs have
been placed in the reception buffer.
-/

namespace Ns3.Nr.Am

open Semantics SequenceNumber10

structure Pair where
  sender : NrRlcAm
  receiver : NrRlcAm
  accepted : List (List UInt8) := []
  /-- The new data PDUs, each under the number of its place. -/
  sent : List AmPdu := []
  /-- VT(A) and VR(R), not reduced. -/
  vtA : Nat := 0
  vrR : Nat := 0
  placed : ReceivingSide.Placed := fun _ => none
  /-- The data PDUs in flight, with their numbers. -/
  data : List (Nat × AmPdu) := []
  /-- The STATUS PDUs in flight, with their ACK_SNs. -/
  status : List (Nat × AmPdu) := []

namespace Pair

inductive Action where
  | transmitPdcpPdu (p : List UInt8) (now : Nat)
  | senderOpportunity (bytes : UInt32)
  | receiverOpportunity (bytes : UInt32)
  | expirePollRetransmitTimer
  | expireReorderingTimer
  | expireStatusProhibitTimer
  | dataLost (i : Nat)
  | dataArrives (i : Nat)
  | statusLost (i : Nat)
  | statusArrives (i : Nat)

variable (pair : Pair)

/-- The data PDUs in flight after an opportunity of the sender. Its numbers lie in a window of 512. -/
def dataAfter (sent : List AmPdu) (pdu : Option AmPdu) : List (Nat × AmPdu) :=
  pair.data ++ (pdu.map fun pdu =>
    (earliest (sent.length - windowSize) pdu.header.sequenceNumber.value, pdu)).toList

def statusAfter (pdu : Option AmPdu) : List (Nat × AmPdu) :=
  pair.status ++ (pdu.map fun pdu => (earliest pair.vrR pdu.header.ackSn.value, pdu)).toList

/-- Whether a data PDU that arrives is placed in the reception buffer. -/
def places (receiver : NrRlcAm) (pdu : AmPdu) : Bool :=
  receiver.receiving.isInsideReceivingWindow pdu.header.sequenceNumber &&
    (receiver.receiving.rxonBuffer pdu.header.sequenceNumber.value).isNone

def placedAfter (n : Nat) (pdu : AmPdu) : ReceivingSide.Placed :=
  if places pair.receiver pdu then Function.update pair.placed n (some pdu) else pair.placed

def step : Action -> Option Pair
  | .transmitPdcpPdu p now =>
    -- An SDU has the header of PDCP at least.
    if p = [] then none
    else
      let (transmitting, dropped) := pair.sender.transmitting.doTransmitPdcpPdu p now
      some { pair with
        sender := { pair.sender with transmitting := transmitting }
        accepted := if dropped then pair.accepted else pair.accepted ++ [p] }
  | .senderOpportunity bytes =>
    match pair.sender.doNotifyTxOpportunity bytes with
    | .ok (sender, pdu) =>
      let sent := CorrectPeer.sentAfter pair.sender sender pair.sent pdu
      some { pair with sender := sender, sent := sent, data := pair.dataAfter sent pdu }
    | .error _ => none
  | .receiverOpportunity bytes =>
    match pair.receiver.doNotifyTxOpportunity bytes with
    | .ok (receiver, pdu) => some { pair with receiver := receiver, status := pair.statusAfter pdu }
    | .error _ => none
  | .expirePollRetransmitTimer =>
    if pair.sender.transmitting.pollRetransmitTimer then
      match pair.sender.transmitting.expirePollRetransmitTimer with
      | .ok transmitting => some { pair with sender := { pair.sender with transmitting := transmitting } }
      | .error _ => none
    else none
  | .expireReorderingTimer =>
    if pair.receiver.receiving.reorderingTimer then
      match pair.receiver.receiving.expireReorderingTimer with
      | .ok receiving => some { pair with receiver := { pair.receiver with receiving := receiving } }
      | .error _ => none
    else none
  | .expireStatusProhibitTimer =>
    if pair.receiver.receiving.statusProhibitTimer then
      some { pair with
        receiver := { pair.receiver with receiving := pair.receiver.receiving.expireStatusProhibitTimer } }
    else none
  | .dataLost i => if i < pair.data.length then some { pair with data := pair.data.eraseIdx i } else none
  | .dataArrives i =>
    match pair.data[i]? with
    | none => none
    | some (n, pdu) =>
      match pair.receiver.doReceivePdu pdu with
      | .ok receiver =>
        some { pair with
          receiver := receiver
          vrR := earliest pair.vrR receiver.receiving.vrR.value
          placed := pair.placedAfter n pdu
          data := pair.data.eraseIdx i }
      | .error _ => none
  | .statusLost i => if i < pair.status.length then some { pair with status := pair.status.eraseIdx i } else none
  | .statusArrives i =>
    match pair.status[i]? with
    | none => none
    | some (_, pdu) =>
      match pair.sender.doReceivePdu pdu with
      | .ok sender =>
        some { pair with
          sender := sender
          vtA := earliest pair.vtA sender.transmitting.vtA.value
          status := pair.status.eraseIdx i }
      | .error _ => none

/-- The data PDU that arrives in a step. -/
def arrivingData : Action -> Option (Nat × AmPdu)
  | .dataArrives i => pair.data[i]?
  | _ => none

/-- The STATUS PDU that arrives in a step. -/
def arrivingStatus : Action -> Option (Nat × AmPdu)
  | .statusArrives i => pair.status[i]?
  | _ => none

/-- Two entities as they are created, with their attributes. -/
def Initial : Prop :=
  ∃ maxTxBufferSize bigEnough receiverMax receiverBigEnough, pair =
    { sender :=
        ⟨{ maxTxBufferSize := maxTxBufferSize, txOpportunityForRetxAlwaysBigEnough := bigEnough }, {}⟩
      receiver :=
        ⟨{ maxTxBufferSize := receiverMax, txOpportunityForRetxAlwaysBigEnough := receiverBigEnough }, {}⟩ }

def system : System Pair Action where
  Initial := Initial
  step := step

end Pair
end Ns3.Nr.Am
