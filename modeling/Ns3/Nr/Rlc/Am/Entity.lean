import Ns3.Nr.Rlc.Am.CorrectPeer
import Ns3.Nr.Rlc.Am.StatusSize
import Ns3.Nr.Rlc.Am.Stream

/-!
# An entity of the acknowledged mode with any peer

What it sends fits into its opportunities, but for a STATUS PDU, and carries the stream of the
accepted SDUs, whatever PDUs it receives.
-/

namespace Ns3.Nr.Am

open Semantics SequenceNumber10 TransmittingSide CorrectPeer

structure Entity where
  am : NrRlcAm
  /-- The SDUs that were not reported through the drop trace. -/
  accepted : List (List UInt8) := []
  /-- The new data PDUs. -/
  sent : List AmPdu := []

namespace Entity

inductive Action where
  | transmitPdcpPdu (p : List UInt8) (now : Nat)
  | txOpportunity (bytes : UInt32)
  | receivePdu (pdu : AmPdu)
  | expirePollRetransmitTimer
  | expireReorderingTimer
  | expireStatusProhibitTimer

def step (entity : Entity) : Action -> Option Entity
  | .transmitPdcpPdu p now =>
    -- An SDU has the header of PDCP at least.
    if p = [] then none
    else
      let (transmitting, dropped) := entity.am.transmitting.doTransmitPdcpPdu p now
      some { entity with
        am := { entity.am with transmitting := transmitting }
        accepted := if dropped then entity.accepted else entity.accepted ++ [p] }
  | .txOpportunity bytes =>
    match entity.am.doNotifyTxOpportunity bytes with
    | .ok (am, pdu) => some { entity with am := am, sent := CorrectPeer.sentAfter entity.am am entity.sent pdu }
    | .error _ => none
  | .receivePdu pdu =>
    match entity.am.doReceivePdu pdu with
    | .ok am => some { entity with am := am }
    | .error _ => none
  | .expirePollRetransmitTimer =>
    if entity.am.transmitting.pollRetransmitTimer then
      match entity.am.transmitting.expirePollRetransmitTimer with
      | .ok transmitting => some { entity with am := { entity.am with transmitting := transmitting } }
      | .error _ => none
    else none
  | .expireReorderingTimer =>
    if entity.am.receiving.reorderingTimer then
      match entity.am.receiving.expireReorderingTimer with
      | .ok receiving => some { entity with am := { entity.am with receiving := receiving } }
      | .error _ => none
    else none
  | .expireStatusProhibitTimer =>
    if entity.am.receiving.statusProhibitTimer then
      some { entity with am := { entity.am with receiving := entity.am.receiving.expireStatusProhibitTimer } }
    else none

/-- An entity as it is created, for opportunities that may be too small for a retransmission. -/
def Initial (entity : Entity) : Prop :=
  ∃ maxTxBufferSize, entity = { am := ⟨{ maxTxBufferSize := maxTxBufferSize }, {}⟩ }

def system : System Entity Action where
  Initial := Initial
  step := step

structure Inv (entity : Entity) : Prop where
  outstanding : ∃ lowest acked, entity.am.transmitting.Outstanding lowest entity.sent acked
  streamed : entity.am.transmitting.Streamed entity.accepted entity.sent
  bigEnough : entity.am.transmitting.txOpportunityForRetxAlwaysBigEnough = false

variable {entity next : Entity} {bytes : UInt32} {after : NrRlcAm} {pdu : Option AmPdu} {packet : AmPdu}

theorem Inv.initial (isInitial : Initial entity) : Inv entity := by
  obtain ⟨maxTxBufferSize, rfl⟩ := isInitial
  exact ⟨⟨0, fun _ => False, Outstanding.initial⟩, Queued.initial, rfl⟩

/-- A STATUS PDU that goes first, and is larger than its opportunity. -/
def StatusOverruns (am : NrRlcAm) (bytes : UInt32) : Prop :=
  (am.receiving.statusPduRequested = true ∧ am.receiving.statusProhibitTimer = false) ∧
    Overruns bytes.toNat (am.receiving.missingBelow 1024 am.receiving.vrR).length

section

variable (inv : Inv entity)
include inv

/-- What an opportunity does: a STATUS PDU is sent, a PDU is sent again, a new one is sent, or none.
-/
theorem Inv.opportunity_cases (isAfter : entity.am.doNotifyTxOpportunity bytes = .ok (after, pdu)) :
    (entity.am.receiving.statusPduRequested = true ∧ entity.am.receiving.statusProhibitTimer = false) ∧
        4 ≤ bytes ∧ entity.am.sendStatusPdu bytes = .ok (after, pdu) ∨
      ¬(entity.am.receiving.statusPduRequested = true ∧ entity.am.receiving.statusProhibitTimer = false) ∧
        after.receiving = entity.am.receiving ∧
        (after.transmitting = entity.am.transmitting ∧ pdu = none ∨
          (∃ packet lowest acked, pdu = some packet ∧
            Outstanding.Retransmitted entity.am.transmitting after.transmitting entity.sent lowest acked bytes packet ∧
            after.transmitting.vtS = entity.am.transmitting.vtS) ∨
          ∃ packet, pdu = some packet ∧
            Carries entity.am.transmitting after.transmitting bytes packet entity.accepted entity.sent ∧
            (∃ lowest acked, after.transmitting.Outstanding lowest (entity.sent ++ [packet]) acked) ∧
            after.transmitting.vtS = entity.am.transmitting.vtS.increment ∧
            after.transmitting.txOpportunityForRetxAlwaysBigEnough =
              entity.am.transmitting.txOpportunityForRetxAlwaysBigEnough) := by
  obtain ⟨lowest, acked, out⟩ := inv.outstanding
  unfold NrRlcAm.doNotifyTxOpportunity at isAfter
  split at isAfter
  · cases isAfter
  · rename_i enough
    split at isAfter
    · rename_i status
      simp only [Bool.not_eq_true] at status
      exact .inl ⟨status, UInt32.not_lt.mp enough, isAfter⟩
    · rename_i noStatus
      simp only [Bool.not_eq_true] at noStatus
      refine .inr ⟨noStatus, ?_⟩
      rcases @doNotifyTxOpportunity_cases entity.am.transmitting lowest entity.sent acked bytes out with
        ⟨failure, failed, -⟩ | none | ⟨side, packet, isSide, again⟩ | ⟨side, packet, isSide, large, room, built⟩
      · rw [failed] at isAfter
        cases isAfter
      · rw [none] at isAfter
        cases isAfter
        exact ⟨rfl, .inl ⟨rfl, rfl⟩⟩
      · rw [isSide] at isAfter
        cases isAfter
        exact ⟨rfl, .inr (.inl ⟨packet, lowest, acked, rfl, again, again.outstanding.vtS.trans out.vtS.symm⟩)⟩
      · rw [isSide] at isAfter
        cases isAfter
        exact ⟨rfl, .inr
          (.inr ⟨packet, rfl, built.carries inv.streamed large,
          ⟨lowest, acked, built.outstanding out room⟩,
          built.vtS, built.bigEnough⟩)⟩

theorem Inv.size_iff (isAfter : entity.am.doNotifyTxOpportunity bytes = .ok (after, some packet)) :
    packet.getSize ≤ bytes.toNat ↔ ¬StatusOverruns entity.am bytes := by
  rcases inv.opportunity_cases isAfter with ⟨status, enough, isSent⟩ | ⟨noStatus, -, cases⟩
  · rw [sendStatusPdu_size (UInt32.le_iff_toNat_le.mp enough) isSent, StatusOverruns]
    exact not_congr (and_iff_right status).symm
  · refine iff_of_true ?_ fun overruns => noStatus overruns.1
    rcases cases with ⟨-, none⟩ | ⟨other, lowest, acked, isOther, again, -⟩ | ⟨other, isOther, carries, -⟩
    · cases none
    · cases isOther
      exact again.fits inv.bigEnough
    · cases isOther
      exact carries.fits

theorem Inv.txOpportunity (isAfter : entity.am.doNotifyTxOpportunity bytes = .ok (after, pdu)) :
    Inv { entity with am := after, sent := sentAfter entity.am after entity.sent pdu } := by
  have unchanged : after.transmitting = entity.am.transmitting ->
      Inv { entity with am := after, sent := sentAfter entity.am after entity.sent pdu } := by
    intro same
    rw [sentAfter, if_pos (by rw [same])]
    refine ⟨?_, ?_, ?_⟩ <;> dsimp only <;> rw [same]
    · exact inv.outstanding
    · exact inv.streamed
    · exact inv.bigEnough
  rcases inv.opportunity_cases isAfter with ⟨-, -, isSent⟩ | ⟨-, -, cases⟩
  · obtain ⟨sn, -, rfl⟩ := sendStatusPdu_eq isSent
    exact unchanged rfl
  · rcases cases with ⟨same, -⟩ | ⟨packet, lowest, acked, rfl, again, vtS⟩ | ⟨packet, rfl, carries, out, vtS, bigEnough⟩
    · exact unchanged same
    · rw [sentAfter, if_pos vtS]
      exact ⟨⟨lowest, acked, again.outstanding⟩, inv.streamed.congr again.sameQueue,
        again.sameQueue.bigEnough.trans inv.bigEnough⟩
    · have other : after.transmitting.vtS ≠ entity.am.transmitting.vtS := by
        rw [vtS]
        exact increment_ne _
      rw [sentAfter, if_neg other]
      exact ⟨out, carries.streamed, bigEnough.trans inv.bigEnough⟩

theorem Inv.receivePdu {pdu : AmPdu} (isAfter : entity.am.doReceivePdu pdu = .ok after) :
    Inv { entity with am := after } := by
  obtain ⟨lowest, acked, out⟩ := inv.outstanding
  unfold NrRlcAm.doReceivePdu at isAfter
  split at isAfter
  · cases received : entity.am.receiving.receiveData pdu with
    | error failure =>
      rw [received] at isAfter
      cases isAfter
    | ok receiving =>
      rw [received] at isAfter
      cases isAfter
      exact ⟨inv.outstanding, inv.streamed, inv.bigEnough⟩
  · split at isAfter
    · rcases receiveStatus_cases out (ofNat_earliest lowest pdu.header.ackSn.value).symm (le_earliest _ _)
        (earliest_lt _ _) with ⟨transmitting, further, isReceived, kept, queue, -⟩ | ⟨failed, -⟩
      · rw [isReceived] at isAfter
        cases isAfter
        exact ⟨⟨further, _, kept⟩, inv.streamed.congr queue, queue.bigEnough.trans inv.bigEnough⟩
      · rw [failed] at isAfter
        cases isAfter
    · cases isAfter
      exact inv

theorem Inv.step {action : Action} (moves : step entity action = some next) : Inv next := by
  obtain ⟨lowest, acked, out⟩ := inv.outstanding
  cases action <;> simp only [Entity.step] at moves
  case transmitPdcpPdu p now =>
    split at moves
    · cases moves
    · rename_i nonempty
      cases moves
      refine ⟨⟨lowest, acked, ?_⟩, inv.streamed.doTransmitPdcpPdu nonempty, ?_⟩
      · unfold TransmittingSide.doTransmitPdcpPdu
        split
        · exact out.congr rfl rfl rfl
            ⟨out.counted.exclusive, out.counted.txedBufferSize, out.counted.retxBufferSize⟩ rfl
        · exact out
      · unfold TransmittingSide.doTransmitPdcpPdu
        split <;> exact inv.bigEnough
  case txOpportunity bytes =>
    split at moves
    · rename_i after pdu isAfter
      cases moves
      exact inv.txOpportunity isAfter
    · cases moves
  case receivePdu pdu =>
    split at moves
    · rename_i after isAfter
      cases moves
      exact inv.receivePdu isAfter
    · cases moves
  case expirePollRetransmitTimer =>
    obtain ⟨transmitting, isExpired, kept, queue⟩ := expirePollRetransmitTimer_spec out
    simp only [isExpired] at moves
    split at moves
    · cases moves
      exact ⟨⟨lowest, acked, kept⟩, inv.streamed.congr queue, queue.bigEnough.trans inv.bigEnough⟩
    · cases moves
  case expireReorderingTimer =>
    split at moves
    · split at moves
      · cases moves
        exact ⟨⟨lowest, acked, out⟩, inv.streamed, inv.bigEnough⟩
      · cases moves
    · cases moves
  case expireStatusProhibitTimer =>
    split at moves
    · cases moves
      exact ⟨⟨lowest, acked, out⟩, inv.streamed, inv.bigEnough⟩
    · cases moves

end

theorem inv_of_run {trace : List (Entity × Action)} (run : system.Run trace entity) : Inv entity :=
  run.invariant_of_guard Inv (fun _ _ => True) (fun _ isInitial => .initial isInitial)
    (fun inv _ moves => inv.step moves) fun _ _ => trivial

end Entity
end Ns3.Nr.Am
