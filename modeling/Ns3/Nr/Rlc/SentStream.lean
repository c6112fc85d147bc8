import Ns3.Nr.Rlc.DataFieldFraming

/-!
# The stream behind a transmission buffer

The pieces that have been sent and the ones in the transmission buffer behind them are the SDUs that
were stored.
-/

namespace Ns3.Nr

open Semantics.Framing List UInt32

/-- A transmission buffer with its counter, behind the pieces that have been sent. -/
structure Queued (txBuffer : List TxPdu) (txBufferSize : UInt32) (stored : List (List UInt8))
    (sent : List (Piece UInt8)) : Prop where
  pending : Pending txBuffer
  counted : txBufferSize = UInt32.ofNat (queuedBytes txBuffer)
  stream : Assembly.feedAll {} (sent ++ pieces txBuffer) = some ⟨stored, none⟩

theorem queuedBytes_append (txBuffer : List TxPdu) (entry : TxPdu) :
    queuedBytes (txBuffer ++ [entry]) = queuedBytes txBuffer + entry.pdu.getSize := by
  induction txBuffer with
  | nil => exact (Nat.add_comm _ _).trans rfl
  | cons first txBuffer ih =>
    rw [cons_append, queuedBytes, queuedBytes, ih, Nat.add_assoc]

variable {txBuffer : List TxPdu} {txBufferSize : UInt32} {stored : List (List UInt8)} {sent : List (Piece UInt8)}
  {p : List UInt8} {now : Nat} {first : TxPdu} {nextSegmentSize : Nat}

theorem pending_append (pending : Pending txBuffer) (nonempty : p ≠ []) :
    Pending (txBuffer ++ [⟨⟨p, .fullSdu⟩, now⟩]) where
  nonempty entry mem := by
    rcases mem_append.mp mem with early | late
    · exact pending.nonempty entry early
    · rw [mem_singleton.mp late]
      exact nonempty
  ends entry mem := by
    rcases mem_append.mp mem with early | late
    · exact pending.ends entry early
    · exact .inl (by rw [mem_singleton.mp late])
  full entry mem := by
    cases txBuffer with
    | nil => cases mem
    | cons first txBuffer =>
      rcases mem_append.mp mem with early | late
      · exact pending.full entry early
      · rw [mem_singleton.mp late]

namespace Queued

theorem initial : Queued [] 0 [] [] where
  pending := ⟨by simp, by simp, by simp⟩
  counted := rfl
  stream := rfl

theorem push (queued : Queued txBuffer txBufferSize stored sent) (nonempty : p ≠ []) :
    Queued (txBuffer ++ [⟨⟨p, .fullSdu⟩, now⟩]) (txBufferSize + ofNat p.length) (stored ++ [p]) sent where
  pending := pending_append queued.pending nonempty
  counted := by
    rw [queuedBytes_append, ofNat_add, ← queued.counted]
    rfl
  stream := by
    have added : pieces (txBuffer ++ [⟨⟨p, .fullSdu⟩, now⟩]) = pieces txBuffer ++ [⟨true, true, p⟩] := map_append
    rw [added, ← append_assoc, feedAll_append, queued.stream]
    rfl

theorem fill {Header : Type} [DataHeader Header] (queued : Queued (first :: txBuffer) txBufferSize stored sent)
    (room : 0 < nextSegmentSize) (header : Header) : ∃ result whole last,
      fillDataField txBuffer first nextSegmentSize 1
        { txBuffer := txBuffer
          txBufferSize := txBufferSize - ofNat first.pdu.getSize
          header := header
          dataField := [] } = result ∧
      Filled first txBuffer nextSegmentSize 1
        { txBuffer := txBuffer
          txBufferSize := txBufferSize - ofNat first.pdu.getSize
          header := header
          dataField := [] } result whole last ∧
      Queued result.txBuffer result.txBufferSize stored (sent ++ (whole ++ [last]).map Segment.piece) := by
  have before : txBufferSize - ofNat first.pdu.getSize = ofNat (queuedBytes txBuffer) := by
    rw [queued.counted, queuedBytes, ofNat_add_sub]
  obtain ⟨whole, last, filled⟩ := @fillDataField_filled Header _ first txBuffer
    { txBuffer := txBuffer
      txBufferSize := txBufferSize - ofNat first.pdu.getSize
      header := header
      dataField := [] } nextSegmentSize 1 queued.pending rfl room
  refine ⟨_, whole, last, rfl, filled, filled.pending, filled.counted before, ?_⟩
  have stream := queued.stream
  rw [feedAll_append] at stream
  rw [append_assoc, feedAll_append, ← stream]
  congr 1
  ext1 assembly
  exact (filled.stream assembly).symm

end Queued
end Ns3.Nr
