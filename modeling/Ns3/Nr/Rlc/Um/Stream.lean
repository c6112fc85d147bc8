import Ns3.Nr.Rlc.SentStream
import Ns3.Nr.Rlc.SequenceWindow
import Ns3.Nr.Rlc.Um.TransmittingSide

/-!
# The stream that the unacknowledged mode sends
-/

namespace Ns3.Nr

open Semantics.Framing List

/-- The pieces of the stream in a PDU. -/
def UmPdu.pieces (pdu : UmPdu) : List (Piece UInt8) :=
  pduPieces pdu.header.framingInfo pdu.header.extensionBits pdu.header.lengthIndicators pdu.data

namespace Um.TransmittingSide

variable {side next : TransmittingSide} {stored : List (List UInt8)} {sent : List UmPdu} {packet : UmPdu}
  {bytes : UInt32} {p : List UInt8} {now : Nat}

theorem addHeader_eq {header : NrRlcHeader} {data : List UInt8} (added : addHeader header data = .ok packet) :
    packet = ⟨header, data⟩ := by
  unfold addHeader at added
  split at added
  · split at added
    · exact (Except.ok.inj added).symm
    · cases added
  · cases added

/-- A buffer behind the PDUs that have been sent, which are numbered in sequence. -/
structure Streamed (side : TransmittingSide) (stored : List (List UInt8)) (sent : List UmPdu) : Prop where
  queued : Queued side.txBuffer side.txBufferSize stored (sent.flatMap UmPdu.pieces)
  sequenceNumber : side.sequenceNumber.value = Fin.ofNat 1024 sent.length

theorem Streamed.initial (fresh : side.txBuffer = [] ∧ side.txBufferSize = 0 ∧ side.sequenceNumber = .ofValue 0) :
    side.Streamed [] [] := by
  obtain ⟨buffer, size, number⟩ := fresh
  refine ⟨?_, ?_⟩
  · rw [buffer, size]
    exact Queued.initial
  · rw [number]
    rfl

theorem Streamed.doTransmitPdcpPdu (streamed : side.Streamed stored sent) (nonempty : p ≠ []) :
    (side.doTransmitPdcpPdu p now).1.Streamed (if side.hasRoom p then stored ++ [p] else stored) sent := by
  unfold TransmittingSide.doTransmitPdcpPdu
  split
  · exact ⟨streamed.queued.push nonempty, streamed.sequenceNumber⟩
  · exact streamed

/-- What an opportunity sends. -/
structure Sends (side next : TransmittingSide) (bytes : UInt32) (packet : UmPdu) (stored : List (List UInt8))
    (sent : List UmPdu) : Prop where
  streamed : next.Streamed stored (sent ++ [packet])
  number : packet.header.sequenceNumber.value = Fin.ofNat 1024 sent.length
  framing : packet.header.framingInfo &&& 0x03 = packet.header.framingInfo
  header : ∃ framingInfo sn indicators, packet.header = NrRlcHeader.build framingInfo sn indicators ∧
    ∀ li ∈ indicators, li.toNat < 2048
  added : addHeader packet.header packet.data = .ok packet
  cut : ∃ first sdus,
    cutPacket packet.header.extensionBits packet.header.lengthIndicators packet.data =
    some (first, sdus)
  fits : packet.getSize ≤ bytes.toNat

theorem doNotifyTxOpportunity_cases (streamed : side.Streamed stored sent) :
    (∃ failure, side.doNotifyTxOpportunity bytes = .error failure) ∨
      side.doNotifyTxOpportunity bytes = .ok (side, none) ∨
      ∃ next packet, side.doNotifyTxOpportunity bytes = .ok (next, some packet) ∧
        Sends side next bytes packet stored sent := by
  obtain ⟨queued, isNumber⟩ := streamed
  unfold doNotifyTxOpportunity
  split
  · exact .inr (.inl rfl)
  · rename_i enough
    have large : 2 < bytes.toNat := UInt32.lt_iff_toNat_lt.mp (UInt32.not_le.mp enough)
    cases isBuffer : side.txBuffer with
    | nil => exact .inr (.inl rfl)
    | cons firstSegment txBuffer =>
      rw [isBuffer] at queued
      obtain ⟨field, whole, last, isField, filled, further⟩ := queued.fill (by omega : 0 < bytes.toNat - 2)
        ({} : NrRlcHeader)
      dsimp only
      rw [isField]
      have dataField : field.dataField = whole ++ [last] := filled.dataField
      split
      · rename_i empty
        rw [dataField] at empty
        exact absurd empty (by simp)
      · rename_i first segments isList
        have isSegments : whole ++ [last] = first :: segments := dataField.symm.trans isList
        cases added : addHeader ((field.header.setSequenceNumber side.sequenceNumber).setFramingInfo
            (framingInfo first ((first :: segments).getLast (cons_ne_nil _ _)))) (joined (first :: segments)) with
        | error failure => exact .inl ⟨failure, rfl⟩
        | ok packet =>
          refine .inr (.inr ⟨_, packet, rfl, ?_⟩)
          have isHeader : (field.header.setSequenceNumber side.sequenceNumber).setFramingInfo
              (framingInfo first ((first :: segments).getLast (cons_ne_nil _ _))) =
                NrRlcHeader.build (framingInfo first ((first :: segments).getLast (cons_ne_nil _ _)))
                  side.sequenceNumber (indicators whole) := by
            rw [filled.header, pushIndicators_um]
            rfl
          obtain rfl := addHeader_eq added
          rw [isHeader] at added ⊢
          rw [NrRlcHeader.build_eq] at added ⊢
          obtain ⟨cut, sdus, isCut, -⟩ := cutPacket_joined filled.small last
          rw [isSegments] at isCut
          refine ⟨⟨?_, ?_⟩, isNumber, ?_,
            ⟨_, _, _, (NrRlcHeader.build_eq _).symm, filled.indicators_small⟩, added,
            ⟨cut, sdus, isCut⟩, ?_⟩
          · rw [flatMap_append, flatMap_singleton, UmPdu.pieces, filled.pduPieces isSegments]
            exact further
          · rw [length_append, length_singleton]
            dsimp only
            rw [SequenceNumber10.increment, isNumber, SequenceNumber10.ofNat_add_left]
          · dsimp only
            rw [UInt8.and_assoc]
            rfl
          · have fits := filled.fits
            rw [isSegments, indicatorBytes_first] at fits
            have count : (indicators whole).length = whole.length := length_map _
            rw [UmPdu.getSize]
            dsimp only [NrRlcHeader.getSerializedSize]
            rw [count, UInt16.toNat_ofNat']
            have modulus := Nat.mod_le (2 + fieldsLength whole.length) 65536
            omega

end Um.TransmittingSide
end Ns3.Nr
