import Ns3.Nr.Rlc.Am.RetransmissionBuffers
import Ns3.Nr.Rlc.SequenceWindow

/-!
# The transmitting window

Behind the variables of the transmitting side stand the number of PDUs that have been transmitted
and the number below which all of them are acknowledged. The buffers hold the PDUs from there on
that are not.
-/

namespace Ns3.Nr.Am.TransmittingSide

open SequenceNumber10 List Option Function Nat

/-- The transmitting side after it has sent some PDUs, of which the given ones are acknowledged. -/
structure Outstanding (side : TransmittingSide) (lowest : Nat) (sent : List AmPdu) (acked : Nat -> Prop) : Prop where
  vtA : side.vtA = reading lowest lowest
  vtS : side.vtS = reading lowest sent.length
  vtMs : side.vtMs = reading lowest (lowest + windowSize)
  lowest_le : lowest ≤ sent.length
  le_window : sent.length ≤ lowest + windowSize
  counted : side.BuffersCounted
  passed : ∀ n < lowest, acked n
  known : ∀ n, acked n -> n < sent.length
  stored_iff : ∀ sn pdu, side.stored sn = some pdu ↔
    ∃ n, lowest ≤ n ∧ ¬acked n ∧ sn = Fin.ofNat 1024 n ∧ sent[n]? = some pdu

variable {side : TransmittingSide} {lowest n ack : Nat} {sent : List AmPdu} {acked : Nat -> Prop}
    {header : NrRlcAmHeader}
  {bytes : UInt32} {sn : Fin 1024} {pdu packet : AmPdu}

/-- The part of the transmitting side that the acknowledgements do not change. -/
structure SameQueue (side next : TransmittingSide) : Prop where
  bigEnough : next.txOpportunityForRetxAlwaysBigEnough = side.txOpportunityForRetxAlwaysBigEnough
  txonBuffer : next.txonBuffer = side.txonBuffer
  txonBufferSize : next.txonBufferSize = side.txonBufferSize

namespace Outstanding

theorem initial {maxTxBufferSize : UInt32} {bigEnough : Bool} :
    Outstanding { maxTxBufferSize := maxTxBufferSize, txOpportunityForRetxAlwaysBigEnough := bigEnough } 0 []
      fun _ => False where
  vtA := rfl
  vtS := rfl
  vtMs := rfl
  lowest_le := le_refl _
  le_window := zero_le _
  counted := ⟨BuffersCounted.initial.exclusive, BuffersCounted.initial.txedBufferSize,
    BuffersCounted.initial.retxBufferSize⟩
  passed n below := absurd below (not_lt_zero n)
  known _ := False.elim
  stored_iff sn pdu := by simp [stored]

variable (out : side.Outstanding lowest sent acked)

include out

theorem stored_reading (above : lowest ≤ n) (below : n < sent.length) :
    side.stored (Fin.ofNat 1024 n) = some pdu ↔ ¬acked n ∧ sent[n]? = some pdu := by
  have window := out.le_window
  have size : windowSize = 512 := rfl
  rw [out.stored_iff]
  constructor
  · rintro ⟨m, isAbove, unacked, same, isPdu⟩
    have isBelow : m < sent.length := (List.getElem?_eq_some_iff.mp isPdu).1
    obtain rfl := (ofNat_inj (by omega) (by omega)).mp same
    exact ⟨unacked, isPdu⟩
  · rintro ⟨unacked, isPdu⟩
    exact ⟨n, above, unacked, rfl, isPdu⟩

theorem stored_eq_none_iff (above : lowest ≤ n) (below : n < sent.length) :
    side.stored (Fin.ofNat 1024 n) = none ↔ acked n := by
  have isPdu : sent[n]? = some sent[n] := getElem?_eq_getElem below
  constructor
  · intro empty
    by_contra unacked
    have held := (out.stored_reading above below).mpr ⟨unacked, isPdu⟩
    exact absurd (empty.symm.trans held) (by simp)
  · intro isAcked
    apply eq_none_iff_forall_ne_some.mpr
    intro pdu held
    exact ((out.stored_reading above below).mp held).1 isAcked

theorem stored_next (room : sent.length < lowest + windowSize) : side.stored (Fin.ofNat 1024 sent.length) = none := by
  have size : windowSize = 512 := rfl
  apply eq_none_iff_forall_ne_some.mpr
  intro pdu held
  obtain ⟨n, above, -, same, isPdu⟩ := (out.stored_iff _ _).mp held
  have below : n < sent.length := (List.getElem?_eq_some_iff.mp isPdu).1
  have equal := (ofNat_inj (by omega) (by omega)).mp same
  omega

theorem congr {next : TransmittingSide} (vtA : next.vtA = side.vtA) (vtS : next.vtS = side.vtS)
    (vtMs : next.vtMs = side.vtMs) (counted : next.BuffersCounted) (stored : next.stored = side.stored) :
    next.Outstanding lowest sent acked where
  vtA := vtA.trans out.vtA
  vtS := vtS.trans out.vtS
  vtMs := vtMs.trans out.vtMs
  lowest_le := out.lowest_le
  le_window := out.le_window
  counted := counted
  passed := out.passed
  known := out.known
  stored_iff := by
    rw [stored]
    exact out.stored_iff

/-! ## Acknowledgements -/

theorem released {next : TransmittingSide} (above : lowest ≤ n) (below : n < sent.length)
    (vtA : next.vtA = side.vtA) (vtS : next.vtS = side.vtS) (vtMs : next.vtMs = side.vtMs)
    (counted : next.BuffersCounted) (stored : next.stored = update side.stored (Fin.ofNat 1024 n) none) :
    next.Outstanding lowest sent fun k => acked k ∨ k = n where
  vtA := vtA.trans out.vtA
  vtS := vtS.trans out.vtS
  vtMs := vtMs.trans out.vtMs
  lowest_le := out.lowest_le
  le_window := out.le_window
  counted := counted
  passed k isBelow := .inl (out.passed k isBelow)
  known k isAcked := isAcked.elim (out.known k) fun same => same ▸ below
  stored_iff sn pdu := by
    have window := out.le_window
    have size : windowSize = 512 := rfl
    rw [stored]
    by_cases same : sn = Fin.ofNat 1024 n
    · subst same
      refine iff_of_false (by simp) ?_
      rintro ⟨m, isAbove, unacked, same, isPdu⟩
      have isBelow : m < sent.length := (List.getElem?_eq_some_iff.mp isPdu).1
      exact unacked (.inr ((ofNat_inj (by omega) (by omega)).mp same).symm)
    · rw [update_of_ne same, out.stored_iff]
      constructor
      · rintro ⟨m, isAbove, unacked, rfl, isPdu⟩
        refine ⟨m, isAbove, ?_, rfl, isPdu⟩
        rintro (isAcked | rfl)
        · exact unacked isAcked
        · exact same rfl
      · rintro ⟨m, isAbove, unacked, rfl, isPdu⟩
        exact ⟨m, isAbove, fun isAcked => unacked (.inl isAcked), rfl, isPdu⟩

theorem ackSn_spec (above : lowest ≤ n) (below : n < sent.length) : ∃ next, side.ackSn (Fin.ofNat 1024 n) = .ok next ∧
    next.Outstanding lowest sent (fun k => acked k ∨ k = n) ∧ SameQueue side next := by
  cases txed : (side.txedBuffer (Fin.ofNat 1024 n)).pdu with
  | some pdu =>
    have empty : (side.retxBuffer (Fin.ofNat 1024 n)).pdu = none := by
      rcases out.counted.exclusive (Fin.ofNat 1024 n) with none | none
      · exact absurd (none.symm.trans txed) (by simp)
      · exact none
    refine ⟨side.releaseTxed (Fin.ofNat 1024 n) pdu, by rw [ackSn, txed, empty], ?_, ⟨rfl, rfl, rfl⟩⟩
    exact out.released above below rfl rfl rfl (releaseTxed_counted out.counted txed)
      (releaseTxed_stored out.counted txed)
  | none =>
    cases retx : (side.retxBuffer (Fin.ofNat 1024 n)).pdu with
    | some pdu =>
      refine ⟨side.releaseRetx (Fin.ofNat 1024 n) pdu, by rw [ackSn, txed, retx], ?_, ⟨rfl, rfl, rfl⟩⟩
      exact out.released above below rfl rfl rfl (releaseRetx_counted out.counted retx)
        (releaseRetx_stored out.counted retx)
    | none =>
      have empty : side.stored (Fin.ofNat 1024 n) = none := by rw [stored, txed, retx, or_none]
      refine ⟨side, by rw [ackSn, txed, retx], ?_, ⟨rfl, rfl, rfl⟩⟩
      refine out.released above below rfl rfl rfl out.counted ?_
      rw [← empty, update_eq_self]

theorem nackSn_cases (above : lowest ≤ n) (below : n < sent.length) :
    (∃ next, side.nackSn (Fin.ofNat 1024 n) = .ok next ∧ next.Outstanding lowest sent acked ∧ SameQueue side next) ∨
      side.nackSn (Fin.ofNat 1024 n) = .error .nackedPduMissing ∧ acked n := by
  cases txed : (side.txedBuffer (Fin.ofNat 1024 n)).pdu with
  | some pdu =>
    refine .inl ⟨side.moveToRetxBuffer (Fin.ofNat 1024 n) pdu, by rw [nackSn, txed], ?_, ⟨rfl, rfl, rfl⟩⟩
    exact out.congr rfl rfl rfl (moveToRetxBuffer_counted out.counted txed) (moveToRetxBuffer_stored out.counted txed)
  | none =>
    by_cases held : (side.retxBuffer (Fin.ofNat 1024 n)).pdu.isSome
    · exact .inl ⟨side, by rw [nackSn, txed, if_pos held], out, ⟨rfl, rfl, rfl⟩⟩
    · refine .inr ⟨by rw [nackSn, txed, if_neg held], (out.stored_eq_none_iff above below).mp ?_⟩
      rw [stored, txed]
      exact not_isSome_iff_eq_none.mp held

theorem incrementVtA_spec (below : lowest < sent.length) (isAcked : acked lowest) :
    side.incrementVtA.Outstanding (lowest + 1) sent acked where
  vtA := by
    rw [incrementVtA, out.vtA, reading_increment]
    rfl
  vtS := by
    rw [incrementVtA, out.vtA, out.vtS, reading_increment]
    rfl
  vtMs := by
    rw [incrementVtA, out.vtA, reading_increment, reading_add]
    rfl
  lowest_le := below
  le_window := by
    have window := out.le_window
    omega
  counted := ⟨out.counted.exclusive, out.counted.txedBufferSize, out.counted.retxBufferSize⟩
  passed k isBelow := by
    by_cases same : k = lowest
    · exact same ▸ isAcked
    · exact out.passed k (by omega)
  known := out.known
  stored_iff sn pdu := by
    apply (out.stored_iff sn pdu).trans
    constructor
    · rintro ⟨m, above, unacked, same, isPdu⟩
      have other : m ≠ lowest := fun equal => unacked (equal ▸ isAcked)
      exact ⟨m, by omega, unacked, same, isPdu⟩
    · rintro ⟨m, above, unacked, same, isPdu⟩
      exact ⟨m, by omega, unacked, same, isPdu⟩

omit out in
theorem acked_congr {also : Nat -> Prop} (same : ∀ k, acked k ↔ also k) (out : side.Outstanding lowest sent acked) :
    side.Outstanding lowest sent also := by
  obtain rfl : acked = also := funext fun k => propext (same k)
  exact out

theorem stopPollRetransmitTimer_spec (sn : SequenceNumber10) :
    (side.stopPollRetransmitTimer sn).Outstanding lowest sent acked ∧
      SameQueue side (side.stopPollRetransmitTimer sn) := by
  unfold stopPollRetransmitTimer
  split
  · exact ⟨out.congr rfl rfl rfl ⟨out.counted.exclusive, out.counted.txedBufferSize, out.counted.retxBufferSize⟩ rfl,
      ⟨rfl, rfl, rfl⟩⟩
  · exact ⟨out, ⟨rfl, rfl, rfl⟩⟩

end Outstanding

theorem SameQueue.trans {next final : TransmittingSide} (first : SameQueue side next) (further : SameQueue next final) :
    SameQueue side final where
  bigEnough := further.bigEnough.trans first.bigEnough
  txonBuffer := further.txonBuffer.trans first.txonBuffer
  txonBufferSize := further.txonBufferSize.trans first.txonBufferSize

/-- The numbers that a STATUS PDU acknowledges, from one on: those below ACK_SN that it does not
report missing. -/
def Confirms (header : NrRlcAmHeader) (n ack transmitted k : Nat) : Prop :=
  n ≤ k ∧ k < ack ∧ k < transmitted ∧ k % 1024 ∉ header.nackSnList

theorem confirms_nacked (nacked : n % 1024 ∈ header.nackSnList) (transmitted k : Nat) :
    Confirms header (n + 1) ack transmitted k ↔ Confirms header n ack transmitted k := by
  constructor
  · rintro ⟨above, below, sent, free⟩
    exact ⟨by omega, below, sent, free⟩
  · rintro ⟨above, below, sent, free⟩
    have other : k ≠ n := fun same => free (same ▸ nacked)
    exact ⟨by omega, below, sent, free⟩

theorem confirms_acked {transmitted : Nat} (free : n % 1024 ∉ header.nackSnList) (below : n < ack)
    (isSent : n < transmitted) (k : Nat) :
    (acked k ∨ k = n) ∨ Confirms header (n + 1) ack transmitted k ↔
      acked k ∨ Confirms header n ack transmitted k := by
  constructor
  · rintro ((isAcked | rfl) | ⟨above, rest⟩)
    · exact .inl isAcked
    · exact .inr ⟨le_refl _, below, isSent, free⟩
    · exact .inr ⟨by omega, rest⟩
  · rintro (isAcked | ⟨above, rest⟩)
    · exact .inl (.inl isAcked)
    · by_cases same : k = n
      · exact .inl (.inr same)
      · exact .inr ⟨by omega, rest⟩

/-- The loop over the numbers below ACK_SN. It fails if it reports a number missing that has been
acknowledged. -/
theorem receiveStatusFrom_cases {rounds : Nat} {increments : Bool} (out : side.Outstanding lowest sent acked)
    (above : lowest ≤ n) (below : n ≤ sent.length) (isLowest : increments = true -> n = lowest)
    (ackAbove : lowest ≤ ack) (ackBelow : ack < lowest + 1024) (enough : sent.length - n < rounds) :
    (∃ final further, receiveStatusFrom header rounds side (reading lowest n) (reading lowest ack) increments =
        .ok final ∧
      final.Outstanding further sent (fun k => acked k ∨ Confirms header n ack sent.length k) ∧
      SameQueue side final ∧ lowest ≤ further) ∨
    receiveStatusFrom header rounds side (reading lowest n) (reading lowest ack) increments =
        .error .nackedPduMissing ∧
      ∃ k, n ≤ k ∧ k < ack ∧ k < sent.length ∧ k % 1024 ∈ header.nackSnList ∧ acked k := by
  have size : windowSize = 512 := rfl
  induction rounds generalizing side lowest n acked increments with
  | zero => omega
  | succ rounds ih =>
    have window := out.le_window
    have order := out.lowest_le
    unfold receiveStatusFrom
    rw [reading_lt above (by omega) ackAbove ackBelow, out.vtS, reading_lt above (by omega) order (by omega),
      reading_increment]
    by_cases goes : n < ack ∧ n < sent.length
    · obtain ⟨timed, sameQueue⟩ := out.stopPollRetransmitTimer_spec (reading lowest n)
      rw [if_pos (by simpa using goes)]
      by_cases nacked : n % 1024 ∈ header.nackSnList
      · have present : header.isNackPresent (reading lowest n) = true := by
          simpa [NrRlcAmHeader.isNackPresent] using nacked
        simp only [present, reading_value]
        rcases timed.nackSn_cases above goes.2 with ⟨next, isNext, kept, queue⟩ | ⟨missing, isAcked⟩
        · rw [isNext]
          rcases @ih next lowest (n + 1) acked false kept (by omega) (by omega) (by simp) ackAbove
              ackBelow (by omega) with
            ⟨final, further, isFinal, outstanding, finalQueue, more⟩ | ⟨failed, k, isAbove, isBelow, rest⟩
          · refine .inl ⟨final, further, isFinal, ?_, (sameQueue.trans queue).trans finalQueue, more⟩
            exact outstanding.acked_congr fun k => or_congr_right (confirms_nacked nacked _ k)
          · exact .inr ⟨failed, k, by omega, isBelow, rest⟩
        · rw [missing]
          exact .inr ⟨rfl, n, le_refl _, goes.1, goes.2, nacked, isAcked⟩
      · have absent : header.isNackPresent (reading lowest n) = false := by
          simpa [NrRlcAmHeader.isNackPresent] using nacked
        obtain ⟨next, isNext, kept, queue⟩ := timed.ackSn_spec above goes.2
        simp only [absent, reading_value, isNext, Except.bind]
        cases increments with
        | true =>
          obtain rfl := isLowest rfl
          have passes := kept.incrementVtA_spec goes.2 (.inr rfl)
          have sameIncrement : SameQueue next next.incrementVtA := ⟨rfl, rfl, rfl⟩
          have base : next.incrementVtA.vtA.getValue = (n + 1) % 1024 := by
            rw [passes.vtA, reading_getValue]
          simp only [base, reading_setModulusBase, reading_increment]
          rcases @ih next.incrementVtA (n + 1) (n + 1) (fun k => acked k ∨ k = n) true passes
              (le_refl _) (by omega) (fun _ => rfl) (by omega) (by omega) (by omega) with
            ⟨final, further, isFinal, outstanding, finalQueue, more⟩ |
            ⟨failed, k, isAbove, isBelow, isSent, isNacked, isAcked⟩
          · refine .inl ⟨final, further, isFinal, ?_,
              (sameQueue.trans queue).trans (sameIncrement.trans finalQueue), by omega⟩
            exact outstanding.acked_congr (confirms_acked nacked goes.1 goes.2)
          · exact .inr ⟨failed, k, by omega, isBelow, isSent, isNacked, isAcked.resolve_right (by omega)⟩
        | false =>
          rcases @ih next lowest (n + 1) (fun k => acked k ∨ k = n) false kept (by omega) (by omega)
              (by simp) ackAbove ackBelow (by omega) with
            ⟨final, further, isFinal, outstanding, finalQueue, more⟩ |
            ⟨failed, k, isAbove, isBelow, isSent, isNacked, isAcked⟩
          · refine .inl ⟨final, further, isFinal, ?_, (sameQueue.trans queue).trans finalQueue, more⟩
            exact outstanding.acked_congr (confirms_acked nacked goes.1 goes.2)
          · exact .inr ⟨failed, k, by omega, isBelow, isSent, isNacked, isAcked.resolve_right (by omega)⟩
    · rw [if_neg (by simpa using goes)]
      refine .inl ⟨side, lowest, rfl, out.acked_congr fun k => ⟨.inl, ?_⟩, ⟨rfl, rfl, rfl⟩, le_refl _⟩
      rintro (isAcked | ⟨isAbove, isBelow, isSent, -⟩)
      · exact isAcked
      · omega

theorem setModulusBase_spec (out : side.Outstanding lowest sent acked) : side.setModulusBase = side := by
  rw [setModulusBase, out.vtA, reading_getValue, reading_setModulusBase, out.vtS, reading_setModulusBase, out.vtMs,
    reading_setModulusBase, ← out.vtA, ← out.vtS, ← out.vtMs]

theorem receiveStatus_cases (out : side.Outstanding lowest sent acked)
    (isAck : header.ackSn.value = Fin.ofNat 1024 ack) (ackAbove : lowest ≤ ack) (ackBelow : ack < lowest + 1024) :
    (∃ final further, side.receiveStatus header = .ok final ∧
      final.Outstanding further sent (fun k => acked k ∨ Confirms header lowest ack sent.length k) ∧
      SameQueue side final ∧ lowest ≤ further) ∨
    side.receiveStatus header = .error .nackedPduMissing ∧
      ∃ k, lowest ≤ k ∧ k < ack ∧ k < sent.length ∧ k % 1024 ∈ header.nackSnList ∧ acked k := by
  have window := out.le_window
  have size : windowSize = 512 := rfl
  have cases := @receiveStatusFrom_cases side lowest lowest ack sent acked header 1024 true out (le_refl _)
    out.lowest_le (fun _ => rfl) ackAbove ackBelow (by omega)
  have isReading : header.ackSn.setModulusBase side.vtA.getValue = reading lowest ack := by
    rw [out.vtA, SequenceNumber10.setModulusBase, isAck]
    rfl
  rw [receiveStatus, setModulusBase_spec out, isReading, out.vtA]
  exact cases

/-- A STATUS PDU that reports no number missing which has been acknowledged. -/
theorem receiveStatus_spec (out : side.Outstanding lowest sent acked)
    (isAck : header.ackSn.value = Fin.ofNat 1024 ack) (ackAbove : lowest ≤ ack) (ackBelow : ack < lowest + 1024)
    (valid : ∀ k, lowest ≤ k -> k < ack -> k < sent.length -> k % 1024 ∈ header.nackSnList -> ¬acked k) :
    ∃ final further, side.receiveStatus header = .ok final ∧
      final.Outstanding further sent (fun k => acked k ∨ Confirms header lowest ack sent.length k) ∧
      SameQueue side final ∧ lowest ≤ further := by
  rcases receiveStatus_cases out isAck ackAbove ackBelow with done | ⟨-, k, isAbove, isBelow, isSent, isNacked, isAcked⟩
  · exact done
  · exact absurd isAcked (valid k isAbove isBelow isSent isNacked)

/-! ## Transmission opportunities -/

namespace Outstanding

theorem poll_spec (out : side.Outstanding lowest sent acked) : side.poll.Outstanding lowest sent acked :=
  out.congr rfl rfl rfl ⟨out.counted.exclusive, out.counted.txedBufferSize, out.counted.retxBufferSize⟩ rfl

theorem visited_window (out : side.Outstanding lowest sent acked) :
    side.vtA.upTo side.vtS = (range' lowest (sent.length - lowest)).map (reading lowest) := by
  have window := out.le_window
  have size : windowSize = 512 := rfl
  rw [out.vtA, out.vtS]
  exact upTo_reading (le_refl _) out.lowest_le (by omega)

/-- A retransmission sends a PDU that is not acknowledged once more, perhaps with another polling
bit. -/
structure Retransmitted (side next : TransmittingSide) (sent : List AmPdu) (lowest : Nat) (acked : Nat -> Prop)
    (bytes : UInt32) (packet : AmPdu) : Prop where
  number : ∃ n original pollingBit, lowest ≤ n ∧ ¬acked n ∧ sent[n]? = some original ∧
    packet = ⟨original.header.setPollingBit pollingBit, original.data⟩
  fits : side.txOpportunityForRetxAlwaysBigEnough = false -> packet.getSize ≤ bytes.toNat
  outstanding : next.Outstanding lowest sent acked
  sameQueue : SameQueue side next

variable {given : NrRlcAmHeader} {data : List UInt8}

theorem addHeader_eq (added : addHeader given data = .ok packet) : packet = ⟨given, data⟩ := by
  unfold addHeader at added
  split at added
  · split at added
    · exact (Except.ok.inj added).symm
    · cases added
  · cases added

theorem addHeader_error {failure : Failure}
    (failed : addHeader given data = .error failure) : failure = .addHeader := by
  unfold addHeader at failed
  split at failed
  · split at failed
    · cases failed
    · exact (Except.error.inj failed).symm
  · exact (Except.error.inj failed).symm

section

variable (out : side.Outstanding lowest sent acked)
include out

theorem found (pending : side.retxBufferSize ≠ 0) :
    ∃ sn pdu, ((side.vtA.upTo side.vtS).findSome? fun sn =>
      (side.retxBuffer sn.value).pdu.map fun pdu => (sn.value, pdu)) = some (sn, pdu) ∧
      (side.retxBuffer sn).pdu = some pdu := by
  have some : heldBytes side.retxBuffer ≠ 0 := by
    intro none
    rw [out.counted.retxBufferSize, none] at pending
    exact pending rfl
  obtain ⟨sn, held⟩ := exists_of_heldBytes some
  obtain ⟨pdu, isPdu⟩ := ne_none_iff_exists'.mp held
  obtain ⟨n, above, -, rfl, isSent⟩ := (out.stored_iff sn pdu).mp (stored_retx out.counted isPdu)
  have below : n < sent.length := (List.getElem?_eq_some_iff.mp isSent).1
  cases search : (side.vtA.upTo side.vtS).findSome? fun sn =>
    (side.retxBuffer sn.value).pdu.map fun pdu => (sn.value, pdu) with
  | none =>
    rw [findSome?_eq_none_iff, out.visited_window] at search
    have mem : reading lowest n ∈ (range' lowest (sent.length - lowest)).map (reading lowest) :=
      List.mem_map_of_mem (mem_range'_1.mpr ⟨above, by omega⟩)
    have missed := search _ mem
    rw [reading_value, isPdu] at missed
    cases missed
  | some result =>
    obtain ⟨sn, -, isResult⟩ := exists_of_findSome?_eq_some search
    obtain ⟨other, isOther, rfl⟩ := map_eq_some_iff.mp isResult
    exact ⟨sn.value, other, rfl, isOther⟩

theorem retransmit_spec (pending : side.retxBufferSize ≠ 0) :
    side.retransmit bytes = .error .addHeader ∨ side.retransmit bytes = .ok (side, none) ∨
      ∃ next packet, side.retransmit bytes = .ok (next, some packet) ∧
        Retransmitted side next sent lowest acked bytes packet := by
  obtain ⟨sn, pdu, isFound, held⟩ := out.found pending
  obtain ⟨n, above, unacked, rfl, isSent⟩ := (out.stored_iff sn pdu).mp (stored_retx out.counted held)
  have below : n < sent.length := (List.getElem?_eq_some_iff.mp isSent).1
  have window := out.le_window
  have size : windowSize = 512 := rfl
  have nonempty : side.vtA.lt side.vtS = true := by
    rw [out.vtA, out.vtS, reading_lt (le_refl _) (by omega) out.lowest_le (by omega)]
    exact decide_eq_true (by omega)
  unfold retransmit
  rw [if_pos nonempty, isFound]
  dsimp only
  split
  · rename_i fits
    cases added : addHeader (pdu.header.setPollingBit (if side.txonBuffer.isEmpty = true ∧
        side.retxBufferSize = UInt32.ofNat pdu.getSize ∨ side.vtS.ge side.vtMs = true ∨
        side.pollRetransmitTimerJustExpired = true then statusReportIsRequested else statusReportNotRequested))
        pdu.data with
    | error failure =>
      obtain rfl := addHeader_error added
      exact .inl rfl
    | ok packet =>
      obtain rfl := addHeader_eq added
      refine .inr (.inr ⟨_, _, rfl, ⟨⟨n, pdu, _, above, unacked, isSent, rfl⟩, fun realistic => ?_, ?_, ?_⟩⟩)
      · rcases fits with fits | always
        · exact fits
        · exact absurd always (by simp [realistic])
      · split
        · exact out.poll_spec.congr rfl rfl rfl (moveToTxedBuffer_counted out.poll_spec.counted held)
            (moveToTxedBuffer_stored out.poll_spec.counted held)
        · exact out.congr rfl rfl rfl (moveToTxedBuffer_counted out.counted held)
            (moveToTxedBuffer_stored out.counted held)
      · split <;> exact ⟨rfl, rfl, rfl⟩
  · exact .inr (.inl rfl)

theorem transmitted {next : TransmittingSide}
    (room : sent.length < lowest + windowSize) (vtA : next.vtA = side.vtA) (vtS : next.vtS = side.vtS.increment)
    (vtMs : next.vtMs = side.vtMs) (counted : next.BuffersCounted)
    (stored : next.stored = update side.stored (Fin.ofNat 1024 sent.length) (some packet)) :
    next.Outstanding lowest (sent ++ [packet]) acked where
  vtA := vtA.trans out.vtA
  vtS := by rw [vtS, out.vtS, reading_increment, length_append, length_singleton]
  vtMs := vtMs.trans out.vtMs
  lowest_le := by
    have order := out.lowest_le
    rw [length_append]
    omega
  le_window := by
    rw [length_append]
    exact room
  counted := counted
  passed := out.passed
  known k isAcked := by
    have below := out.known k isAcked
    rw [length_append]
    omega
  stored_iff sn pdu := by
    have size : windowSize = 512 := rfl
    have order := out.lowest_le
    rw [stored]
    by_cases same : sn = Fin.ofNat 1024 sent.length
    · subst same
      rw [update_self]
      constructor
      · rintro isPacket
        cases isPacket
        refine ⟨sent.length, order, fun isAcked => lt_irrefl _ (out.known _ isAcked), rfl, ?_⟩
        exact getElem?_concat_length
      · rintro ⟨m, above, -, same, isPdu⟩
        have below : m < sent.length + 1 := by
          have bound := (List.getElem?_eq_some_iff.mp isPdu).1
          rwa [length_append] at bound
        obtain rfl := (ofNat_inj (by omega) (by omega)).mp same
        rwa [getElem?_concat_length] at isPdu
    · rw [update_of_ne same, out.stored_iff]
      constructor
      · rintro ⟨m, above, unacked, rfl, isPdu⟩
        have below : m < sent.length := (List.getElem?_eq_some_iff.mp isPdu).1
        exact ⟨m, above, unacked, rfl, by rwa [getElem?_append_left below]⟩
      · rintro ⟨m, above, unacked, rfl, isPdu⟩
        have bound := (List.getElem?_eq_some_iff.mp isPdu).1
        rw [length_append, length_singleton] at bound
        have other : m ≠ sent.length := by
          rintro rfl
          exact same rfl
        exact ⟨m, above, unacked, rfl, by rwa [getElem?_append_left (by omega)] at isPdu⟩

end

end Outstanding

/-- The data field that is filled from a transmission buffer. -/
def newDataField (side : TransmittingSide) (bytes : UInt32) (firstSegment : TxPdu) (txonBuffer : List TxPdu) :
    DataField NrRlcAmHeader :=
  fillDataField txonBuffer firstSegment (bytes.toNat - 4) 1
    { txBuffer := txonBuffer
      txBufferSize := side.txonBufferSize - UInt32.ofNat firstSegment.pdu.getSize
      header := ({} : NrRlcAmHeader).setDataPdu
      dataField := [] }

/-- What the transmission of a new PDU does. -/
structure Built (side next : TransmittingSide) (bytes : UInt32) (packet : AmPdu) : Prop where
  content : ∃ firstSegment txonBuffer first segments pollingBit, side.txonBuffer = firstSegment :: txonBuffer ∧
      (side.newDataField bytes firstSegment txonBuffer).dataField = first :: segments ∧
      packet = ⟨newHeader (side.newDataField bytes firstSegment txonBuffer).header side.vtS
        (framingInfo first ((first :: segments).getLast (cons_ne_nil _ _))) pollingBit,
        joined (first :: segments)⟩ ∧
      next.txonBuffer = (side.newDataField bytes firstSegment txonBuffer).txBuffer ∧
      next.txonBufferSize = (side.newDataField bytes firstSegment txonBuffer).txBufferSize
  added : addHeader packet.header packet.data = .ok packet
  bigEnough : next.txOpportunityForRetxAlwaysBigEnough = side.txOpportunityForRetxAlwaysBigEnough
  vtA : next.vtA = side.vtA
  vtS : next.vtS = side.vtS.increment
  vtMs : next.vtMs = side.vtMs
  stored : ∃ before : TransmittingSide, next = before.store side.vtS.value packet ∧
    before.txedBuffer = side.txedBuffer ∧ before.txedBufferSize = side.txedBufferSize ∧
    before.retxBuffer = side.retxBuffer ∧ before.retxBufferSize = side.retxBufferSize

theorem buildNewPdu_cases : (∃ failure, side.buildNewPdu bytes = .error failure ∧ failure ≠ .noPduForRetx) ∨
    side.txonBuffer = [] ∧ side.buildNewPdu bytes = .ok (side, none) ∨
      ∃ next packet, side.buildNewPdu bytes = .ok (next, some packet) ∧ Built side next bytes packet := by
  cases queue : side.txonBuffer with
  | nil =>
    refine .inr (.inl ⟨rfl, ?_⟩)
    unfold buildNewPdu
    rw [queue]
  | cons firstSegment txonBuffer =>
    unfold buildNewPdu
    rw [queue]
    dsimp only
    split
    · split
      · exact .inl ⟨_, rfl, by simp⟩
      · rename_i first segments isField
        cases added : addHeader _ (joined (first :: segments)) with
        | error failure =>
          obtain rfl := Outstanding.addHeader_error added
          exact .inl ⟨_, rfl, by simp⟩
        | ok packet =>
          obtain rfl := Outstanding.addHeader_eq added
          refine .inr (.inr ⟨_, _, rfl, ?_⟩)
          refine ⟨⟨firstSegment, txonBuffer, first, segments, _, queue, isField, rfl, ?_, ?_⟩, added, ?_, ?_, ?_, ?_,
            ⟨_, rfl, ?_, ?_, ?_, ?_⟩⟩ <;> (split <;> rfl)
    · exact .inl ⟨_, rfl, by simp⟩

section

variable (out : side.Outstanding lowest sent acked)
include out

theorem Built.outstanding {next : TransmittingSide}
    (built : Built side next bytes packet) (room : sent.length < lowest + windowSize) :
    next.Outstanding lowest (sent ++ [packet]) acked := by
  obtain ⟨before, isNext, txed, txedSize, retx, retxSize⟩ := built.stored
  have sameStored : before.stored = side.stored := by
    ext1 sn
    rw [TransmittingSide.stored, TransmittingSide.stored, txed, retx]
  have counted : before.BuffersCounted := by
    refine ⟨?_, ?_, ?_⟩
    · rw [txed, retx]
      exact out.counted.exclusive
    · rw [txedSize, txed]
      exact out.counted.txedBufferSize
    · rw [retxSize, retx]
      exact out.counted.retxBufferSize
  have number : side.vtS.value = Fin.ofNat 1024 sent.length := by rw [out.vtS, reading_value]
  have empty : before.stored side.vtS.value = none := by
    rw [sameStored, number]
    exact out.stored_next room
  apply out.transmitted room built.vtA built.vtS built.vtMs
  · rw [isNext]
    exact store_counted counted empty
  · rw [isNext, store_stored, sameStored, number]

theorem doNotifyTxOpportunity_cases :
    (∃ failure, side.doNotifyTxOpportunity bytes = .error failure ∧ failure ≠ .noPduForRetx) ∨
      side.doNotifyTxOpportunity bytes = .ok (side, none) ∨
      (∃ next packet, side.doNotifyTxOpportunity bytes = .ok (next, some packet) ∧
        Outstanding.Retransmitted side next sent lowest acked bytes packet) ∨
      ∃ next packet, side.doNotifyTxOpportunity bytes = .ok (next, some packet) ∧ 7 ≤ bytes ∧
        sent.length < lowest + windowSize ∧ Built side next bytes packet := by
  have window := out.le_window
  have order := out.lowest_le
  have size : windowSize = 512 := rfl
  unfold doNotifyTxOpportunity
  split
  · exact .inl ⟨_, rfl, by simp⟩
  · split
    · rename_i pending
      rcases @Outstanding.retransmit_spec side lowest sent acked bytes out (by
        intro zero
        rw [zero] at pending
        exact absurd pending (by decide)) with failed | none | ⟨next, packet, isNext, spec⟩
      · exact .inl ⟨_, failed, by simp⟩
      · exact .inr (.inl none)
      · exact .inr (.inr (.inl ⟨next, packet, isNext, spec⟩))
    · split
      · split
        · exact .inl ⟨_, rfl, by simp⟩
        · rename_i enough
          split
          · split
            · exact .inr (.inl rfl)
            · rename_i open_
              rw [out.vtS, out.vtMs, reading_eq order (by omega) (by omega) (by omega)] at open_
              have room : sent.length < lowest + windowSize := by
                have ne : sent.length ≠ lowest + windowSize := of_decide_eq_false (by simpa using open_)
                omega
              rcases @buildNewPdu_cases side bytes with failed | ⟨-, none⟩ | ⟨next, packet, isNext, built⟩
              · exact .inl failed
              · exact .inr (.inl none)
              · exact .inr (.inr (.inr ⟨next, packet, isNext, UInt32.not_lt.mp enough, room, built⟩))
          · exact .inl ⟨_, rfl, by simp⟩
      · exact .inr (.inl rfl)

/-! ## The timer -/

theorem considerForRetx_spec (sn : SequenceNumber10) :
    (side.considerForRetx sn).Outstanding lowest sent acked ∧ SameQueue side (side.considerForRetx sn) := by
  unfold considerForRetx
  split
  · rename_i held
    exact ⟨out.congr rfl rfl rfl (moveToRetxBuffer_counted out.counted held)
      (moveToRetxBuffer_stored out.counted held), ⟨rfl, rfl, rfl⟩⟩
  · exact ⟨out, ⟨rfl, rfl, rfl⟩⟩

end

theorem considerForRetx_foldl (sns : List SequenceNumber10) (out : side.Outstanding lowest sent acked) :
    (sns.foldl considerForRetx side).Outstanding lowest sent acked ∧
      SameQueue side (sns.foldl considerForRetx side) := by
  induction sns generalizing side with
  | nil => exact ⟨out, ⟨rfl, rfl, rfl⟩⟩
  | cons sn sns ih =>
    obtain ⟨kept, queue⟩ := considerForRetx_spec out sn
    obtain ⟨final, further⟩ := ih kept
    exact ⟨final, queue.trans further⟩

theorem expirePollRetransmitTimer_spec (out : side.Outstanding lowest sent acked) :
    ∃ next, side.expirePollRetransmitTimer = .ok next ∧ next.Outstanding lowest sent acked ∧ SameQueue side next := by
  have window := out.le_window
  have order := out.lowest_le
  have size : windowSize = 512 := rfl
  have inWindow : side.vtS.le side.vtMs = true := by
    rw [out.vtS, out.vtMs, reading_le order (by omega) (by omega) (by omega)]
    exact decide_eq_true window
  have expired : ({ side with pollRetransmitTimer := false, pollRetransmitTimerJustExpired := true } :
      TransmittingSide).Outstanding lowest sent acked :=
    out.congr rfl rfl rfl ⟨out.counted.exclusive, out.counted.txedBufferSize, out.counted.retxBufferSize⟩ rfl
  unfold expirePollRetransmitTimer
  rw [if_pos inWindow]
  split
  · obtain ⟨kept, queue⟩ := considerForRetx_foldl (side.vtA.upTo side.vtS) expired
    exact ⟨_, rfl, kept, ⟨queue.bigEnough, queue.txonBuffer, queue.txonBufferSize⟩⟩
  · exact ⟨_, rfl, expired, ⟨rfl, rfl, rfl⟩⟩

end Ns3.Nr.Am.TransmittingSide
