import Ns3.Nr.Rlc.Am.ReceivingSide

/-!
# The entity of the acknowledged mode

Both sides share the transmission opportunities, in which a STATUS PDU goes first, and the received
PDUs.
-/

namespace Ns3.Nr

open Am

structure NrRlcAm where
  transmitting : TransmittingSide := {}
  receiving : ReceivingSide := {}

namespace NrRlcAm

/-- The branch of `DoNotifyTxOpportunity` that sends a STATUS PDU. -/
def sendStatusPdu (am : NrRlcAm) (bytes : UInt32) : Except Failure (NrRlcAm × Option AmPdu) :=
  if bytes < am.receiving.statusPduBufferSize then .error .txOpportunityTooSmall
  else
    (am.receiving.buildStatusPdu bytes).bind fun header => (addHeader header []).map fun packet =>
      ({ am with receiving := am.receiving.statusPduSent }, some packet)

/-- `DoNotifyTxOpportunity`, with the PDU that is given to the MAC. -/
def doNotifyTxOpportunity (am : NrRlcAm) (bytes : UInt32) : Except Failure (NrRlcAm × Option AmPdu) :=
  if bytes < 4 then .error .txOpportunityTooSmall
  else if am.receiving.statusPduRequested ∧ ¬am.receiving.statusProhibitTimer then am.sendStatusPdu bytes
  else (am.transmitting.doNotifyTxOpportunity bytes).map fun (transmitting, pdu) =>
    ({ am with transmitting := transmitting }, pdu)

/-- `DoReceivePdu`. -/
def doReceivePdu (am : NrRlcAm) (pdu : AmPdu) : Except Failure NrRlcAm :=
  if pdu.header.isDataPdu then (am.receiving.receiveData pdu).map fun receiving => { am with receiving := receiving }
  else if pdu.header.isControlPdu then
    (am.transmitting.receiveStatus pdu.header).map fun transmitting => { am with transmitting := transmitting }
  else .ok am

end NrRlcAm
end Ns3.Nr
