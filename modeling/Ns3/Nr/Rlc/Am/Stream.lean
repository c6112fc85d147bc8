import Ns3.Nr.Rlc.Am.TransmitWindow
import Ns3.Nr.Rlc.SentStream

/-!
# The stream that the transmitting side sends

The pieces in the new PDUs and in the transmission buffer behind them are the SDUs that were accepted.
-/

namespace Ns3.Nr

open Semantics.Framing NrRlcAmHeader

/-- The pieces of the stream in a PDU. -/
def AmPdu.pieces (pdu : AmPdu) : List (Piece UInt8) :=
  pduPieces pdu.header.framingInfo pdu.header.extensionBits pdu.header.lengthIndicators pdu.data

namespace Am.TransmittingSide

/-- The transmitting side after it has accepted some SDUs and sent some new PDUs. -/
def Streamed (side : TransmittingSide) (accepted : List (List UInt8)) (sent : List AmPdu) : Prop :=
  Queued side.txonBuffer side.txonBufferSize accepted (sent.flatMap AmPdu.pieces)

variable {side next : TransmittingSide} {accepted : List (List UInt8)} {sent : List AmPdu} {packet : AmPdu}
  {bytes : UInt32} {p : List UInt8} {now : Nat}

namespace Streamed

theorem congr (streamed : side.Streamed accepted sent) (same : SameQueue side next) : next.Streamed accepted sent := by
  rw [Streamed, same.txonBuffer, same.txonBufferSize]
  exact streamed

theorem doTransmitPdcpPdu (streamed : side.Streamed accepted sent) (nonempty : p ≠ []) :
    (side.doTransmitPdcpPdu p now).1.Streamed
      (if (side.doTransmitPdcpPdu p now).2 then accepted else accepted ++ [p]) sent := by
  unfold TransmittingSide.doTransmitPdcpPdu
  split
  · exact Queued.push streamed nonempty
  · exact streamed

end Streamed

theorem newHeader_eq (indicators : List UInt16) (sn : SequenceNumber10) (framing pollingBit : UInt8) :
    newHeader (pushIndicators indicators ({} : NrRlcAmHeader).setDataPdu) sn framing pollingBit =
      buildData ⟨pduFlag, pollingBit, framing, lastPduSegment⟩ sn 0 indicators := by
  rw [pushIndicators_am]
  rfl

/-- What is sent when there was a stream to send: the number is the next one, the PDU has room in
the opportunity, and its header is one that is read as it was written. -/
structure Carries (side next : TransmittingSide) (bytes : UInt32) (packet : AmPdu) (accepted : List (List UInt8))
    (sent : List AmPdu) : Prop where
  streamed : next.Streamed accepted (sent ++ [packet])
  header : ∃ flags indicators, packet.header = NrRlcAmHeader.buildData flags side.vtS 0 indicators ∧
    (∀ li ∈ indicators, li.toNat < 2048) ∧ packet.header.lengthIndicators = indicators
  cut : ∃ first sdus,
    cutPacket packet.header.extensionBits packet.header.lengthIndicators packet.data =
    some (first, sdus)
  fits : packet.getSize ≤ bytes.toNat

theorem Built.carries (streamed : side.Streamed accepted sent) (built : Built side next bytes packet)
    (enough : 7 ≤ bytes) : Carries side next bytes packet accepted sent := by
  obtain ⟨firstSegment, txonBuffer, first, segments, pollingBit, isBuffer, isField, rfl, nextBuffer, nextSize⟩ :=
    built.content
  have large : 7 ≤ bytes.toNat := UInt32.le_iff_toNat_le.mp enough
  have queued : Queued (firstSegment :: txonBuffer) side.txonBufferSize accepted (sent.flatMap AmPdu.pieces) :=
    isBuffer ▸ streamed
  obtain ⟨field, whole, last, isResult, filled, further⟩ := queued.fill (by omega : 0 < bytes.toNat - 4)
    ({} : NrRlcAmHeader).setDataPdu
  have same : side.newDataField bytes firstSegment txonBuffer = field := isResult
  rw [same] at isField nextBuffer nextSize ⊢
  have isSegments : whole ++ [last] = first :: segments := filled.dataField.symm.trans isField
  rw [filled.header, newHeader_eq, buildData_eq]
  refine ⟨?_, ⟨_, _, (buildData_eq).symm, filled.indicators_small, rfl⟩, ?_, ?_⟩
  · rw [Streamed, nextBuffer, nextSize, List.flatMap_append, List.flatMap_singleton, AmPdu.pieces,
      filled.pduPieces isSegments]
    exact further
  · obtain ⟨cut, sdus, isCut, -⟩ := cutPacket_joined filled.small last
    rw [isSegments] at isCut
    exact ⟨cut, sdus, isCut⟩
  · have fits := filled.fits
    rw [isSegments, indicatorBytes_first] at fits
    have count : (indicators whole).length = whole.length := List.length_map _
    rw [AmPdu.getSize]
    dsimp only [getSerializedSize]
    rw [count, UInt16.toNat_ofNat']
    have modulus := Nat.mod_le (4 + fieldsLength whole.length) 65536
    omega

end Am.TransmittingSide
end Ns3.Nr
