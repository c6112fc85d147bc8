import Ns3.Nr.Rlc.HeaderCodec
import Ns3.Nr.Rlc.Reassembly
import Ns3.Semantics.Framing

/-!
# What the loop over the segments takes

The segments of the data field and the packets left in the transmission buffer are the packets that
were there, one of them cut at most. The data field and the length indicators have room in what the
loop was given.
-/

namespace Ns3.Nr

open Semantics.Framing DataHeader List UInt32 Segment

def Segment.piece (segment : Segment) : Piece UInt8 where
  starts := segment.status = .fullSdu ∨ segment.status = .firstSegment
  ends := segment.status = .fullSdu ∨ segment.status = .lastSegment
  content := segment.bytes

/-- The stream that a transmission buffer still holds. -/
def pieces (txBuffer : List TxPdu) : List (Piece UInt8) :=
  txBuffer.map fun entry => entry.pdu.piece

/-- The bytes of a transmission buffer. -/
def queuedBytes : List TxPdu -> Nat
  | [] => 0
  | entry :: txBuffer => entry.pdu.getSize + queuedBytes txBuffer

/-- What a transmission buffer holds: SDUs without their beginning at most in front, none of them
empty. -/
structure Pending (txBuffer : List TxPdu) : Prop where
  nonempty : ∀ entry ∈ txBuffer, entry.pdu.bytes ≠ []
  ends : ∀ entry ∈ txBuffer, entry.pdu.status = .fullSdu ∨ entry.pdu.status = .lastSegment
  full : ∀ entry ∈ txBuffer.tail, entry.pdu.status = .fullSdu

variable {Header : Type} [DataHeader Header] {first : TxPdu} {txBuffer : List TxPdu} {field result : DataField Header}
  {whole : List Segment} {last : Segment} {nextSegmentSize nextSegmentId : Nat}

theorem Pending.tail (pending : Pending (first :: txBuffer)) : Pending txBuffer where
  nonempty entry mem := pending.nonempty entry (mem_cons_of_mem _ mem)
  ends entry mem := pending.ends entry (mem_cons_of_mem _ mem)
  full entry mem := pending.full entry (mem_of_mem_tail mem)

/-- The pushes of a sender, in any header. -/
def pushIndicators : List UInt16 -> Header -> Header
  | [], header => pushExtensionBit header dataFieldFollows
  | li :: lengthIndicators, header =>
    pushIndicators lengthIndicators (pushLengthIndicator (pushExtensionBit header eLiFieldsFollows) li)

theorem pushIndicators_um : ∀ (lengthIndicators : List UInt16) (header : NrRlcHeader),
    pushIndicators lengthIndicators header = header.pushFields lengthIndicators
  | [], _ => rfl
  | _ :: lengthIndicators, _ => pushIndicators_um lengthIndicators _

theorem pushIndicators_am : ∀ (lengthIndicators : List UInt16) (header : NrRlcAmHeader),
    pushIndicators lengthIndicators header = header.pushFields lengthIndicators
  | [], _ => rfl
  | _ :: lengthIndicators, _ => pushIndicators_am lengthIndicators _

/-- The length indicators of the segments in front of the last one. -/
def indicators (whole : List Segment) : List UInt16 :=
  whole.map fun segment => UInt16.ofNat segment.getSize

/-- The bytes that so many length indicators add to the header, from the one with a given number on.
-/
def indicatorBytes : Nat -> Nat -> Nat
  | _, 0 => 0
  | nextSegmentId, count + 1 =>
    (if nextSegmentId % 2 = 1 then 2 else 1) + indicatorBytes (nextSegmentId + 1) count

theorem indicatorBytes_eq : ∀ count nextSegmentId : Nat,
    indicatorBytes nextSegmentId count = count + (count + nextSegmentId % 2) / 2
  | 0, nextSegmentId => by
      rw [indicatorBytes]
      omega
  | count + 1, nextSegmentId => by
      rw [indicatorBytes, indicatorBytes_eq count]
      by_cases odd : nextSegmentId % 2 = 1
      · rw [if_pos odd]
        omega
      · rw [if_neg odd]
        omega

theorem indicatorBytes_first (count : Nat) : indicatorBytes 1 count = fieldsLength count := by
  rw [indicatorBytes_eq, fieldsLength_eq]

/-- What the loop has done when it started with a first segment and what was behind it: segments
with a length indicator each, and a last one. -/
structure Filled (first : TxPdu) (txBuffer : List TxPdu) (nextSegmentSize nextSegmentId : Nat)
    (field result : DataField Header) (whole : List Segment) (last : Segment) : Prop where
  dataField : result.dataField = field.dataField ++ (whole ++ [last])
  header : result.header = pushIndicators (indicators whole) field.header
  pending : Pending result.txBuffer
  stream : ∀ assembly : Assembly UInt8, assembly.feedAll (pieces (first :: txBuffer)) =
    assembly.feedAll ((whole ++ [last]).map Segment.piece ++ pieces result.txBuffer)
  framed : (whole ++ [last]).map Segment.piece =
    block first.pdu.piece.starts last.piece.ends ((whole ++ [last]).map Segment.bytes)
  fits : (joined (whole ++ [last])).length + indicatorBytes nextSegmentId whole.length ≤ nextSegmentSize
  small : ∀ segment ∈ whole, segment.getSize ≤ 2047
  counted : field.txBufferSize = UInt32.ofNat (queuedBytes txBuffer) ->
    result.txBufferSize = UInt32.ofNat (queuedBytes result.txBuffer)

theorem Filled.indicators_small {whole : List Segment}
    (filled : Filled first txBuffer nextSegmentSize nextSegmentId field result whole last) :
    ∀ li ∈ indicators whole, li.toNat < 2048 := by
  intro li mem
  obtain ⟨segment, isSegment, rfl⟩ := List.mem_map.mp mem
  have small := filled.small segment isSegment
  rw [UInt16.toNat_ofNat']
  omega

/-- The data field ends with a segment that is a packet of the buffer, or the beginning of one. -/
theorem Filled.of_last (dataField : result.dataField = field.dataField ++ [last])
    (header : result.header = pushExtensionBit field.header dataFieldFollows) (pending : Pending result.txBuffer)
    (stream : ∀ assembly : Assembly UInt8, assembly.feedAll (pieces (first :: txBuffer)) =
      assembly.feedAll (last.piece :: pieces result.txBuffer))
    (starts : last.piece.starts = first.pdu.piece.starts) (fits : last.getSize ≤ nextSegmentSize)
    (counted : field.txBufferSize = ofNat (queuedBytes txBuffer) ->
      result.txBufferSize = ofNat (queuedBytes result.txBuffer)) :
    Filled first txBuffer nextSegmentSize nextSegmentId field result [] last where
  dataField := dataField
  header := header
  pending := pending
  stream := stream
  framed := by
    rw [← starts]
    rfl
  fits := by
    have size : (joined [last]).length = last.getSize := by simp [joined, getSize]
    rw [nil_append, size]
    exact fits
  small segment mem := nomatch mem
  counted := counted

theorem takeLast_filled (pending : Pending (first :: txBuffer)) (isBuffer : field.txBuffer = txBuffer)
    (fits : first.pdu.getSize ≤ nextSegmentSize) :
    Filled first txBuffer nextSegmentSize nextSegmentId field (field.takeLast first.pdu) [] first.pdu := by
  subst isBuffer
  exact .of_last rfl rfl pending.tail (fun _ => rfl) rfl fits id

theorem splitStatus_piece {status : SduStatus} (ends : status = .fullSdu ∨ status = .lastSegment)
    (front back : List UInt8) (assembly : Assembly UInt8) :
    assembly.feed (piece ⟨front ++ back, status⟩) =
      (assembly.feed (piece ⟨front, (splitStatus status).1⟩)).bind fun next =>
        next.feed (piece ⟨back, (splitStatus status).2⟩) := by
  rcases ends with rfl | rfl <;> exact feed_split

theorem takeSegment_filled (pending : Pending (first :: txBuffer)) (isBuffer : field.txBuffer = txBuffer) :
    ∃ last, Filled first txBuffer nextSegmentSize nextSegmentId field (field.takeSegment first nextSegmentSize)
      [] last := by
  subst isBuffer
  have ends := pending.ends first mem_cons_self
  have whole := take_append_drop (min first.pdu.getSize nextSegmentSize) first.pdu.bytes
  have size : (first.pdu.bytes.take (min first.pdu.getSize nextSegmentSize)).length ≤ nextSegmentSize := by
    rw [length_take]
    omega
  by_cases rest : 0 < (first.pdu.bytes.drop (min first.pdu.getSize nextSegmentSize)).length
  · have cut : field.takeSegment first nextSegmentSize = { field with
        txBuffer := { first with pdu := ⟨first.pdu.bytes.drop (min first.pdu.getSize nextSegmentSize),
          (splitStatus first.pdu.status).2⟩ } :: field.txBuffer
        txBufferSize := field.txBufferSize +
          ofNat (first.pdu.bytes.drop (min first.pdu.getSize nextSegmentSize)).length
        header := pushExtensionBit field.header dataFieldFollows
        dataField := field.dataField ++ [⟨first.pdu.bytes.take (min first.pdu.getSize nextSegmentSize),
          (splitStatus first.pdu.status).1⟩] } := if_pos rest
    rw [cut]
    refine ⟨_, .of_last rfl rfl ⟨?_, ?_, ?_⟩ (fun assembly => ?_) ?_ size fun counted => ?_⟩
    · rintro entry (_ | ⟨_, mem⟩)
      · exact ne_nil_of_length_pos rest
      · exact pending.tail.nonempty entry mem
    · rintro entry (_ | ⟨_, mem⟩)
      · rcases ends with status | status <;> simp [status, splitStatus]
      · exact pending.tail.ends entry mem
    · exact pending.full
    · have one : first.pdu.piece = piece ⟨first.pdu.bytes.take (min first.pdu.getSize nextSegmentSize) ++
          first.pdu.bytes.drop (min first.pdu.getSize nextSegmentSize), first.pdu.status⟩ := by rw [whole]
      simp only [pieces, map_cons, feedAll_cons]
      rw [one, splitStatus_piece ends, Option.bind_assoc]
    · rcases ends with status | status <;> simp [piece, status, splitStatus]
    · simp only [counted, queuedBytes, ← ofNat_add]
      rw [Nat.add_comm]
      rfl
  · have taken : field.takeSegment first nextSegmentSize = { field with
        header := pushExtensionBit field.header dataFieldFollows
        dataField := field.dataField ++ [⟨first.pdu.bytes.take (min first.pdu.getSize nextSegmentSize),
          wholeStatus (splitStatus first.pdu.status).1⟩] } := if_neg rest
    have same : wholeStatus (splitStatus first.pdu.status).1 = first.pdu.status := by
      rcases ends with status | status <;> rw [status] <;> rfl
    have all : first.pdu.bytes.take (min first.pdu.getSize nextSegmentSize) = first.pdu.bytes := by
      rw [eq_nil_of_length_eq_zero (by omega : (first.pdu.bytes.drop _).length = 0), append_nil] at whole
      exact whole
    rw [taken, same]
    rw [all] at size ⊢
    exact ⟨_, .of_last rfl rfl pending.tail (fun _ => rfl) rfl size id⟩

theorem ofNat_add_sub (front rest : Nat) : UInt32.ofNat (front + rest) - UInt32.ofNat front = UInt32.ofNat rest := by
  rw [Nat.add_comm, UInt32.ofNat_add, UInt32.add_sub_cancel]

/-- One round that goes on puts a segment with its length indicator in front of what the others
take. -/
theorem Filled.followed {next : TxPdu} (pending : Pending (first :: next :: txBuffer))
    (small : first.pdu.getSize ≤ 2047)
    (room : (if nextSegmentId % 2 = 1 then 2 else 1) + first.pdu.getSize ≤ nextSegmentSize)
    (filled : Filled next txBuffer
      (nextSegmentSize - ((if nextSegmentId % 2 = 1 then 2 else 1) + first.pdu.getSize)) (nextSegmentId + 1)
      ((field.takeFollowed first.pdu).pop next txBuffer) result whole last) :
    Filled first (next :: txBuffer) nextSegmentSize nextSegmentId field result (first.pdu :: whole) last := by
  have ends : first.pdu.piece.ends = true := decide_eq_true (pending.ends first mem_cons_self)
  have starts : next.pdu.piece.starts = true :=
    decide_eq_true (Or.inl (pending.full next mem_cons_self))
  refine ⟨?_, filled.header, filled.pending, fun assembly => ?_, ?_, ?_, ?_, fun counted => filled.counted ?_⟩
  · rw [filled.dataField]
    exact append_assoc _ [first.pdu] _
  · exact congrArg (Option.bind (assembly.feed first.pdu.piece)) (funext filled.stream)
  · have framed := filled.framed
    rw [starts] at framed
    have isPiece : first.pdu.piece = ⟨first.pdu.piece.starts, true, first.pdu.bytes⟩ := by
      rw [← ends]
      rfl
    have more : (whole ++ [last]).map bytes ≠ [] := by simp
    rw [cons_append, map_cons, framed, map_cons, block_cons more, ← isPiece]
  · have fits := filled.fits
    have size : (joined (first.pdu :: whole ++ [last])).length =
        first.pdu.getSize + (joined (whole ++ [last])).length := length_append
    rw [size, length_cons, indicatorBytes]
    omega
  · rintro segment (_ | ⟨_, mem⟩)
    · exact small
    · exact filled.small segment mem
  · apply (congrArg (· - ofNat next.pdu.getSize) counted).trans
    exact ofNat_add_sub _ _

theorem fillDataField_filled (pending : Pending (first :: txBuffer)) (isBuffer : field.txBuffer = txBuffer)
    (room : 0 < nextSegmentSize) :
    ∃ whole last, Filled first txBuffer nextSegmentSize nextSegmentId field
      (fillDataField txBuffer first nextSegmentSize nextSegmentId field) whole last := by
  induction txBuffer generalizing first nextSegmentSize nextSegmentId field with
  | nil =>
    unfold fillDataField
    have nonempty : ¬(first.pdu.getSize = 0 ∨ nextSegmentSize = 0) := by
      have some : 0 < first.pdu.bytes.length := length_pos_of_ne_nil (pending.nonempty first mem_cons_self)
      unfold getSize
      omega
    rw [if_neg nonempty]
    split
    · obtain ⟨last, filled⟩ := takeSegment_filled pending isBuffer
      exact ⟨[], last, filled⟩
    · have fits : first.pdu.getSize ≤ nextSegmentSize := by omega
      split <;> exact ⟨[], _, takeLast_filled pending isBuffer fits⟩
  | cons next txBuffer ih =>
    unfold fillDataField
    have nonempty : ¬(first.pdu.getSize = 0 ∨ nextSegmentSize = 0) := by
      have some : 0 < first.pdu.bytes.length := length_pos_of_ne_nil (pending.nonempty first mem_cons_self)
      unfold getSize
      omega
    rw [if_neg nonempty]
    split
    · obtain ⟨last, filled⟩ := takeSegment_filled pending isBuffer
      exact ⟨[], last, filled⟩
    · split
      · have fits : first.pdu.getSize ≤ nextSegmentSize := by omega
        exact ⟨[], _, takeLast_filled pending isBuffer fits⟩
      · have cost : (if nextSegmentId % 2 = 1 then 2 else 1) ≤ 2 := by split <;> omega
        obtain ⟨whole, last, filled⟩ := @ih next ((field.takeFollowed first.pdu).pop next txBuffer)
          (nextSegmentSize - ((if nextSegmentId % 2 = 1 then 2 else 1) + first.pdu.getSize)) (nextSegmentId + 1)
          pending.tail rfl (by omega)
        exact ⟨first.pdu :: whole, last, .followed pending (by omega) (by omega) filled⟩

/-- Whether a PDU begins with the first byte of an SDU. -/
def startsSdu (framing : UInt8) : Bool :=
  framing &&& noFirstByte = firstByte

/-- Whether it ends with the last byte of one. -/
def endsSdu (framing : UInt8) : Bool :=
  framing &&& noLastByte = lastByte

/-- The pieces of the stream in a PDU: its data cut at the length indicators, with the flags of its
framing info. -/
def pduPieces (framing : UInt8) (extensionBits : List UInt8) (lengthIndicators : List UInt16) (data : List UInt8) :
    List (Piece UInt8) :=
  match cutPacket extensionBits lengthIndicators data with
  | some (first, sdus) => block (startsSdu framing) (endsSdu framing) (first :: sdus)
  | none => []

/-- The length indicators cut the data field into its segments again. -/
theorem cutPacket_joined : ∀ {whole : List Segment}, (∀ segment ∈ whole, segment.getSize ≤ 2047) -> ∀ last : Segment,
    ∃ first sdus, cutPacket (extensionBitsOf (indicators whole)) (indicators whole) (joined (whole ++ [last])) =
        some (first, sdus) ∧
      (whole ++ [last]).map bytes = first :: sdus
  | [], _, last => by
      refine ⟨last.bytes, [], ?_, rfl⟩
      exact congrArg (fun data => some (data, [])) (append_nil last.bytes)
  | segment :: whole, small, last => by
      obtain ⟨first, sdus, isCut, isList⟩ := cutPacket_joined (fun other mem => small other (.tail _ mem)) last
      have size : (UInt16.ofNat segment.getSize).toNat = segment.bytes.length := by
        have bound : segment.bytes.length ≤ 2047 := small segment (.head _)
        rw [UInt16.toNat_ofNat', getSize]
        omega
      have isJoined : joined (segment :: whole ++ [last]) = segment.bytes ++ joined (whole ++ [last]) := rfl
      refine ⟨segment.bytes, first :: sdus, ?_, ?_⟩
      · have step : cutPacket (extensionBitsOf (indicators (segment :: whole))) (indicators (segment :: whole))
            (joined (segment :: whole ++ [last])) =
            (cutPacket (extensionBitsOf (indicators whole)) (indicators whole)
              ((joined (segment :: whole ++ [last])).drop (UInt16.ofNat segment.getSize).toNat)).map fun rest =>
                ((joined (segment :: whole ++ [last])).take (UInt16.ofNat segment.getSize).toNat,
                  rest.1 :: rest.2) := rfl
        rw [step, size, isJoined, drop_left, take_left, isCut]
        rfl
      · rw [cons_append, map_cons, isList]

theorem startsSdu_framingInfo (first last : Segment) :
    startsSdu (framingInfo first last &&& 0x03) = first.piece.starts := by
  unfold startsSdu framingInfo piece
  split <;> rename_i starts <;> split <;> simp only [starts] <;> rfl

theorem endsSdu_framingInfo (first last : Segment) : endsSdu (framingInfo first last &&& 0x03) = last.piece.ends := by
  unfold endsSdu framingInfo piece
  split <;> split <;> rename_i ends <;> simp only [ends] <;> rfl

theorem Filled.pduPieces {start : TxPdu} {first : Segment} {segments : List Segment}
    (filled : Filled start txBuffer nextSegmentSize nextSegmentId field result whole last)
    (isField : whole ++ [last] = first :: segments) :
    pduPieces (framingInfo first ((first :: segments).getLast (cons_ne_nil _ _)) &&& 0x03)
        (extensionBitsOf (indicators whole)) (indicators whole) (joined (first :: segments)) =
      (whole ++ [last]).map piece := by
  obtain ⟨cut, sdus, isCut, isList⟩ := cutPacket_joined filled.small last
  have isLast : (first :: segments).getLast (cons_ne_nil _ _) = last := by
    simp only [← isField, getLast_append_singleton]
  have framed := filled.framed
  have starts : first.piece.starts = start.pdu.piece.starts := by
    rw [isField] at framed
    cases segments with
    | nil => exact congrArg (fun pieces => (pieces.head?.elim true Piece.starts)) framed
    | cons second segments => exact congrArg (fun pieces => (pieces.head?.elim true Piece.starts)) framed
  rw [isField] at isCut
  rw [framed, isList, Ns3.Nr.pduPieces, isCut, isLast, startsSdu_framingInfo, endsSdu_framingInfo, starts]

end Ns3.Nr
