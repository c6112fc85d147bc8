import Ns3.Nr.Rlc.Am.Entity
import Ns3.Nr.Rlc.Um.Sender

/-!
# Transmission opportunities

What both modes send fits into the opportunity, and carries the stream of the SDUs that were not
reported as dropped. There are exceptions: a STATUS PDU may be one byte too large, and the
unacknowledged mode sends what it has reported.
-/

namespace Ns3.Nr

open Semantics Semantics.Framing Option

/-- The counter of a transmission buffer, and the stream that the PDUs sent before it and the buffer
itself make up. -/
structure CarriesStream (txBuffer : List TxPdu) (txBufferSize : UInt32) (sent : List (Piece UInt8))
    (accepted : List (List UInt8)) : Prop where
  counted : txBufferSize = UInt32.ofNat (queuedBytes txBuffer)
  stream : Assembly.feedAll {} (sent ++ pieces txBuffer) = some ⟨accepted, none⟩

/-- In every run of an entity of the acknowledged mode, the buffer and what was sent carry the
stream, and exactly the STATUS PDUs that overrun do not fit. In every run of a sender of the
unacknowledged mode, all PDUs fit, and the stream is carried exactly if no SDU was reported and
stored. -/
theorem opportunities_fit_and_carry_stream {trace} {entity : Am.Entity} (run : Am.Entity.system.Run trace entity)
    {traceUm} {sender : Um.Sender} (runUm : Um.Sender.system.Run traceUm sender) :
    (CarriesStream entity.am.transmitting.txonBuffer entity.am.transmitting.txonBufferSize
        (entity.sent.flatMap AmPdu.pieces) entity.accepted ∧
      ∀ bytes after pdu, entity.am.doNotifyTxOpportunity bytes = .ok (after, some pdu) ->
        (pdu.getSize ≤ bytes.toNat ↔ ¬Am.Entity.StatusOverruns entity.am bytes)) ∧
    sender.side.txBufferSize = UInt32.ofNat (queuedBytes sender.side.txBuffer) ∧
      (∀ bytes after pdu, sender.side.doNotifyTxOpportunity bytes = .ok (after, some pdu) ->
        pdu.getSize ≤ bytes.toNat) ∧
      (CarriesStream sender.side.txBuffer sender.side.txBufferSize (sender.sent.flatMap UmPdu.pieces) sender.accepted ↔
        ∀ entry ∈ traceUm, ¬Um.Sender.ReportsStored entry.1 entry.2) := by
  constructor
  · have inv := Am.Entity.inv_of_run run
    exact ⟨⟨inv.streamed.counted, inv.streamed.stream⟩, fun bytes after pdu isAfter => inv.size_iff isAfter⟩
  · obtain ⟨stored, streamed, -, same⟩ := Um.Sender.run_streamed runUm
    refine ⟨streamed.queued.counted, fun bytes after pdu isAfter => ?_, ?_⟩
    · rcases @Um.TransmittingSide.doNotifyTxOpportunity_cases _ _ _ bytes streamed with
        ⟨failure, failed⟩ | none | ⟨next, packet, isNext, sends⟩
      · rw [failed] at isAfter
        cases isAfter
      · rw [none] at isAfter
        cases isAfter
      · rw [isNext] at isAfter
        cases isAfter
        exact sends.fits
    · rw [← same, ← Um.Sender.Streamed.stream_iff streamed]
      exact ⟨CarriesStream.stream, fun stream => ⟨streamed.queued.counted, stream⟩⟩

/-- An SDU is sent in two PDUs. -/
def sentEntity : Am.Entity :=
  (Am.Entity.system.exec { am := {} } [.transmitPdcpPdu [1, 2, 3, 4, 5] 0, .txOpportunity 7, .txOpportunity 7]).get
    (by decide +kernel)

def sentSender : Um.Sender :=
  (Um.Sender.system.exec { side := {} } [.transmitPdcpPdu [1, 2, 3, 4, 5] 0, .txOpportunity 5, .txOpportunity 5]).get
    (by decide +kernel)

theorem opportunities_fit_and_carry_stream_sent :
    (sentEntity.sent.length = 2 ∧ CarriesStream sentEntity.am.transmitting.txonBuffer
      sentEntity.am.transmitting.txonBufferSize (sentEntity.sent.flatMap AmPdu.pieces) [[1, 2, 3, 4, 5]]) ∧
    sentSender.sent.length = 2 ∧ CarriesStream sentSender.side.txBuffer sentSender.side.txBufferSize
      (sentSender.sent.flatMap UmPdu.pieces) [[1, 2, 3, 4, 5]] := by
  have isInitial : Am.Entity.system.Initial { am := {} } := ⟨10240, rfl⟩
  have isInitialUm : Um.Sender.system.Initial { side := {} } := ⟨10240, true, 0, 65535, rfl⟩
  have run : Am.Entity.system.Run _ sentEntity := System.run_of_exec isInitial (some_get _).symm
  have runUm : Um.Sender.system.Run _ sentSender := System.run_of_exec isInitialUm (some_get _).symm
  have isAccepted : sentEntity.accepted = [[1, 2, 3, 4, 5]] := by decide +kernel
  have isAcceptedUm : sentSender.accepted = [[1, 2, 3, 4, 5]] := by decide +kernel
  have fits := opportunities_fit_and_carry_stream run runUm
  refine ⟨⟨by decide +kernel, ?_⟩, by decide +kernel, ?_⟩
  · rw [← isAccepted]
    exact fits.1.1
  · rw [← isAcceptedUm]
    refine fits.2.2.2.mpr ?_
    decide +kernel

/-- A data PDU arrives, the three before it are missing, and the reordering timer expires. -/
def threeMissing : List Am.Entity.Action :=
  [.receivePdu ⟨NrRlcAmHeader.buildData ⟨0, 1, 0, 1⟩ (.ofValue 3) 0 [], [1]⟩, .expireReorderingTimer]

def threeMissingEntity : Am.Entity :=
  (Am.Entity.system.exec { am := {} } threeMissing).get (by decide +kernel)

/-- The packet in front has waited for longer than 100 ms when the second SDU comes. -/
def delayed : List Um.Sender.Action :=
  [.transmitPdcpPdu [1] 0, .transmitPdcpPdu [2] 101000000]

def delayedSender : Um.Sender :=
  (Um.Sender.system.exec { side := { packetDelayBudgetMs := 100 } } delayed).get (by decide +kernel)

/-- A STATUS PDU of 7 bytes is sent on an opportunity of 6, and an SDU is reported as dropped and
stored. -/
theorem opportunities_overrun_and_lose_stream : (∃ entity, Am.Entity.system.Reachable entity ∧ ∃ bytes after pdu,
      entity.am.doNotifyTxOpportunity bytes = .ok (after, some pdu) ∧ bytes.toNat < pdu.getSize) ∧
    ∃ sender, Um.Sender.system.Reachable sender ∧
      ¬CarriesStream sender.side.txBuffer sender.side.txBufferSize
        (sender.sent.flatMap UmPdu.pieces) sender.accepted := by
  constructor
  · have isInitial : Am.Entity.system.Initial { am := {} } := ⟨10240, rfl⟩
    have isSent : (threeMissingEntity.am.doNotifyTxOpportunity 6).toOption.any
        (fun result => result.2.any fun pdu => 6 < pdu.getSize) = true := by decide +kernel
    refine ⟨threeMissingEntity, System.reachable_of_exec isInitial threeMissing (some_get _).symm, 6, ?_⟩
    cases result : threeMissingEntity.am.doNotifyTxOpportunity 6 with
    | error failure =>
      rw [result] at isSent
      cases isSent
    | ok sent =>
      obtain ⟨after, pdu⟩ := sent
      rw [result] at isSent
      cases pdu with
      | none => cases isSent
      | some pdu => exact ⟨after, pdu, rfl, of_decide_eq_true isSent⟩
  · have isInitial : Um.Sender.system.Initial { side := { packetDelayBudgetMs := 100 } } := ⟨10240, true, 0, 100, rfl⟩
    refine ⟨delayedSender, System.reachable_of_exec isInitial delayed (some_get _).symm, fun carries => ?_⟩
    have isAccepted : delayedSender.accepted = [[1]] := by decide +kernel
    have isCarried : (Assembly.feedAll {} (delayedSender.sent.flatMap UmPdu.pieces ++
        pieces delayedSender.side.txBuffer)).map Assembly.complete = some [[1], [2]] := by decide +kernel
    rw [carries.stream, isAccepted] at isCarried
    exact absurd isCarried (by decide)

end Ns3.Nr
