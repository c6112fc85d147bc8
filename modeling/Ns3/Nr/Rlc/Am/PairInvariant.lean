import Ns3.Nr.Rlc.Am.Pair

/-!
# What holds of the two entities

The sender holds what is not acknowledged, the receiver has reassembled the stream up to VR(R), and
the PDUs in flight are those that were sent.
-/

namespace Ns3.Nr

open Semantics.Framing SequenceNumber10 List Option Function NrRlcAmHeader

/-- A PDU without its polling bit, which is all that a retransmission changes. -/
def AmPdu.unpolled (pdu : AmPdu) : AmPdu :=
  ⟨pdu.header.setPollingBit 0, pdu.data⟩

namespace Am

open TransmittingSide

/-- A data PDU under the number of its place. -/
structure Numbered (n : Nat) (pdu : AmPdu) : Prop where
  isDataPdu : pdu.header.isDataPdu = true
  number : pdu.header.sequenceNumber.value = Fin.ofNat 1024 n
  framing : pdu.header.framingInfo &&& 0x03 = pdu.header.framingInfo
  cut : ∃ first sdus, cutPacket pdu.header.extensionBits pdu.header.lengthIndicators pdu.data = some (first, sdus)

variable {pdu packet original : AmPdu} {n m : Nat} {sent further : List AmPdu} {accepted : List (List UInt8)}
  {side next : TransmittingSide} {lowest : Nat} {acked : Nat -> Prop} {bytes : UInt32}

theorem unpolled_setPollingBit (original : AmPdu) (pollingBit : UInt8) :
    AmPdu.unpolled ⟨original.header.setPollingBit pollingBit, original.data⟩ = original.unpolled := rfl

theorem pieces_unpolled (pdu : AmPdu) : pdu.unpolled.pieces = pdu.pieces := rfl

theorem numbered_unpolled : Numbered n pdu.unpolled ↔ Numbered n pdu :=
  ⟨fun numbered => ⟨numbered.isDataPdu, numbered.number, numbered.framing, numbered.cut⟩,
    fun numbered => ⟨numbered.isDataPdu, numbered.number, numbered.framing, numbered.cut⟩⟩

theorem TransmittingSide.Carries.numbered (carries : Carries side next bytes packet accepted sent)
    (vtS : side.vtS = reading lowest sent.length) : Numbered sent.length packet := by
  obtain ⟨flags, indicators, isHeader, -, -⟩ := carries.header
  rw [buildData_eq] at isHeader
  refine ⟨?_, ?_, ?_, carries.cut⟩
  · rw [isHeader]
    rfl
  · rw [isHeader, vtS]
    rfl
  · rw [isHeader]
    rw [UInt8.and_assoc]
    rfl

/-- A PDU is that of a number, or a retransmission of it. -/
def Originates (sent : List AmPdu) (n : Nat) (pdu : AmPdu) : Prop :=
  ∃ original, sent[n]? = some original ∧ pdu.unpolled = original.unpolled

namespace Originates

section

variable (originates : Originates sent n pdu)
include originates

theorem below : n < sent.length := by
  obtain ⟨original, isSent, -⟩ := originates
  exact (List.getElem?_eq_some_iff.mp isSent).1

theorem mono (isPrefix : sent <+: further) : Originates further n pdu := by
  obtain ⟨original, isSent, same⟩ := originates
  obtain ⟨later, rfl⟩ := isPrefix
  refine ⟨original, ?_, same⟩
  rw [getElem?_append_left (List.getElem?_eq_some_iff.mp isSent).1, isSent]

theorem numbered (all : ∀ n pdu, sent[n]? = some pdu -> Numbered n pdu) : Numbered n pdu := by
  obtain ⟨original, isSent, same⟩ := originates
  rw [← numbered_unpolled, same, numbered_unpolled]
  exact all n original isSent

end

end Originates

/-! ## The stream at the receiver -/

/-- What the PDUs below a number make up. -/
def assemblyAt (sent : List AmPdu) (n : Nat) : Assembly UInt8 :=
  (Assembly.feedAll {} ((sent.take n).flatMap AmPdu.pieces)).getD {}

theorem assemblyAt_zero (sent : List AmPdu) : assemblyAt sent 0 = {} := rfl

theorem assemblyAt_append (atMost : n ≤ sent.length) (isPrefix : sent <+: further) :
    assemblyAt further n = assemblyAt sent n := by
  obtain ⟨later, rfl⟩ := isPrefix
  rw [assemblyAt, take_append_of_le_length atMost, assemblyAt]

section Streamed

variable (streamed : side.Streamed accepted sent)

include streamed

theorem feedAll_take (n : Nat) : ∃ rest,
    Assembly.feedAll {} ((sent.take n).flatMap AmPdu.pieces) = some (assemblyAt sent n) ∧
      (assemblyAt sent n).feedAll rest = some ⟨accepted, none⟩ := by
  have whole := streamed.stream
  conv at whole => rw [← take_append_drop n sent]
  rw [flatMap_append, append_assoc, feedAll_append] at whole
  obtain ⟨assembly, isAssembly, further⟩ := bind_eq_some_iff.mp whole
  have same : assemblyAt sent n = assembly := by rw [assemblyAt, isAssembly, getD_some]
  rw [same]
  exact ⟨_, isAssembly, further⟩

/-- The units that are complete in it are the first ones of what was accepted. -/
theorem assemblyAt_complete (n : Nat) : (assemblyAt sent n).complete <+: accepted := by
  obtain ⟨rest, -, fed⟩ := feedAll_take streamed n
  exact complete_feedAll fed

theorem feedAll_assemblyAt (isSent : sent[n]? = some pdu) :
    (assemblyAt sent n).feedAll pdu.pieces = some (assemblyAt sent (n + 1)) := by
  obtain ⟨-, isTake, -⟩ := feedAll_take streamed n
  obtain ⟨-, isNext, -⟩ := feedAll_take streamed (n + 1)
  obtain ⟨below, rfl⟩ := List.getElem?_eq_some_iff.mp isSent
  rw [← take_append_getElem below, flatMap_append, flatMap_singleton, feedAll_append, isTake] at isNext
  exact isNext

theorem Originates.inStream (originates : Originates sent n pdu)
    (all : ∀ n pdu, sent[n]? = some pdu -> Numbered n pdu) : ReceivingSide.InStream (assemblyAt sent) n pdu := by
  have numbered := originates.numbered all
  obtain ⟨original, isSent, same⟩ := originates
  obtain ⟨first, sdus, isCut⟩ := numbered.cut
  refine ⟨numbered.number, numbered.framing, first, sdus, isCut, ?_⟩
  have fed := feedAll_assemblyAt streamed isSent
  rw [← pieces_unpolled, ← same, pieces_unpolled, AmPdu.pieces, pduPieces, isCut] at fed
  exact fed

end Streamed

/-! ## The invariant -/

namespace Pair

/-- A STATUS PDU in flight: below its ACK_SN it reports what had not been placed. -/
structure Reports (placed : ReceivingSide.Placed) (transmitted ack : Nat) (pdu : AmPdu) : Prop where
  isControlPdu : pdu.header.isDataPdu = false ∧ pdu.header.isControlPdu = true
  number : pdu.header.ackSn.value = Fin.ofNat 1024 ack
  atMost : ack ≤ transmitted
  reported : ∀ k < ack, placed k ≠ none ∨ k % 1024 ∈ pdu.header.nackSnList

variable {ack i : Nat} {action : Action}

theorem Reports.mono {placed later : ReceivingSide.Placed} {transmitted more : Nat}
    (reports : Reports placed transmitted ack pdu) (order : transmitted ≤ more)
    (grows : ∀ k, placed k ≠ none -> later k ≠ none) : Reports later more ack pdu where
  isControlPdu := reports.isControlPdu
  number := reports.number
  atMost := reports.atMost.trans order
  reported k below := (reports.reported k below).imp_left (grows k)

structure Inv (pair : Pair) (acked : Nat -> Prop) : Prop where
  outstanding : pair.sender.transmitting.Outstanding pair.vtA pair.sent acked
  streamed : pair.sender.transmitting.Streamed pair.accepted pair.sent
  numbered : ∀ n pdu, pair.sent[n]? = some pdu -> Numbered n pdu
  /-- The one entity receives no data, the other one sends none. -/
  onlySends : pair.sender.receiving.statusPduRequested = false
  onlyReceives : pair.receiver.transmitting.retxBufferSize = 0 ∧ pair.receiver.transmitting.txonBufferSize = 0
  receiving : ∃ vrMs vrH, vrH ≤ pair.sent.length ∧
    pair.receiver.receiving.Receiving pair.vrR vrMs vrH pair.placed (assemblyAt pair.sent)
  placed : ∀ n pdu, pair.placed n = some pdu -> Originates pair.sent n pdu
  data : ∀ entry ∈ pair.data, Originates pair.sent entry.1 entry.2
  status : ∀ entry ∈ pair.status, Reports pair.placed pair.sent.length entry.1 entry.2

theorem Inv.initial {pair : Pair} (isInitial : Initial pair) : Inv pair fun _ => False := by
  obtain ⟨maxTxBufferSize, bigEnough, receiverMax, receiverBigEnough, rfl⟩ := isInitial
  refine ⟨Outstanding.initial, Queued.initial, by simp, rfl, ⟨rfl, rfl⟩, ?_, by simp, by simp,
    by simp⟩
  exact ⟨0, 0, Nat.le_refl _, .initial (assemblyAt_zero _)⟩

variable {pair next : Pair} {vrR vrMs vrH : Nat} {placed : ReceivingSide.Placed} {receiving : ReceivingSide}

theorem Inv.vrR_le (inv : Inv pair acked) : pair.vrR ≤ pair.sent.length := by
  obtain ⟨vrMs, vrH, bound, receiving⟩ := inv.receiving
  have order := receiving.buffered.vrR_vrMs
  have orderH := receiving.buffered.vrMs_vrH
  omega

/-! ## The sender -/

theorem Inv.of_transmitting {transmitting : TransmittingSide} {data : List (Nat × AmPdu)} (inv : Inv pair acked)
    (isPrefix : pair.sent <+: sent) (outstanding : transmitting.Outstanding pair.vtA sent acked)
    (streamed : transmitting.Streamed accepted sent) (numbered : ∀ n pdu, sent[n]? = some pdu -> Numbered n pdu)
    (flight : ∀ entry ∈ data, Originates sent entry.1 entry.2) :
    Inv { pair with
      sender := { pair.sender with transmitting := transmitting }
      accepted := accepted
      sent := sent
      data := data } acked where
  outstanding := outstanding
  streamed := streamed
  numbered := numbered
  onlySends := inv.onlySends
  onlyReceives := inv.onlyReceives
  receiving := by
    obtain ⟨vrMs, vrH, bound, receiving⟩ := inv.receiving
    refine ⟨vrMs, vrH, bound.trans isPrefix.length_le, receiving.buffered, receiving.isVrMr, receiving.vrR_missing,
      receiving.vrMs_missing, receiving.timer, ?_⟩
    rw [assemblyAt_append inv.vrR_le isPrefix]
    exact receiving.assembled
  placed n pdu isPlaced := (inv.placed n pdu isPlaced).mono isPrefix
  data := flight
  status entry mem := (inv.status entry mem).mono isPrefix.length_le fun _ => id

theorem Inv.transmitPdcpPdu {p : List UInt8} {now : Nat} (inv : Inv pair acked)
    (moves : step pair (.transmitPdcpPdu p now) = some next) : Inv next acked := by
  simp only [step] at moves
  split at moves
  · cases moves
  · rename_i nonempty
    cases moves
    refine inv.of_transmitting (prefix_refl _) ?_ (inv.streamed.doTransmitPdcpPdu nonempty) inv.numbered inv.data
    unfold TransmittingSide.doTransmitPdcpPdu
    split
    · have counted := inv.outstanding.counted
      exact inv.outstanding.congr rfl rfl rfl ⟨counted.exclusive, counted.txedBufferSize, counted.retxBufferSize⟩ rfl
    · exact inv.outstanding

theorem Inv.flight_append (isPrefix : pair.sent <+: sent) (inv : Inv pair acked) (originates : Originates sent n pdu)
    (isValue : pdu.header.sequenceNumber.value = Fin.ofNat 1024 n) (near : sent.length ≤ n + windowSize) :
    ∀ entry ∈ pair.dataAfter sent (some pdu), Originates sent entry.1 entry.2 := by
  have size : windowSize = 512 := rfl
  have below := originates.below
  have isNumber : earliest (sent.length - windowSize) pdu.header.sequenceNumber.value = n := by
    rw [isValue]
    apply earliest_ofNat <;> omega
  intro entry mem
  rcases mem_append.mp mem with early | late
  · exact (inv.data entry early).mono isPrefix
  · obtain rfl := mem_singleton.mp late
    change Originates sent (earliest (sent.length - windowSize) pdu.header.sequenceNumber.value) pdu
    rw [isNumber]
    exact originates

theorem Inv.senderOpportunity (inv : Inv pair acked)
    (moves : step pair (.senderOpportunity bytes) = some next) : Inv next acked := by
  have out := inv.outstanding
  have window := out.le_window
  have size : windowSize = 512 := rfl
  have isOpportunity : pair.sender.doNotifyTxOpportunity bytes = if bytes < 4 then .error .txOpportunityTooSmall else
    (pair.sender.transmitting.doNotifyTxOpportunity bytes).map fun result =>
      ({ pair.sender with transmitting := result.1 }, result.2) := by
    rw [NrRlcAm.doNotifyTxOpportunity, inv.onlySends]
    rfl
  simp only [step, isOpportunity] at moves
  split at moves
  · rename_i sender pdu isAfter
    split at isAfter
    · cases isAfter
    · cases moves
      rcases @doNotifyTxOpportunity_cases _ _ _ _ bytes out with
        ⟨failure, failed, -⟩ | none | ⟨after, packet, isNext, again⟩ | ⟨after, packet, isNext, enough, room, built⟩
      · rw [failed] at isAfter
        cases isAfter
      · rw [none] at isAfter
        cases isAfter
        rw [CorrectPeer.sentAfter, if_pos rfl, dataAfter, map_none, toList_none, append_nil]
        exact inv.of_transmitting (prefix_refl _) out inv.streamed inv.numbered inv.data
      · rw [isNext] at isAfter
        cases isAfter
        obtain ⟨n, original, pollingBit, above, -, isSent, rfl⟩ := again.number
        have same : after.vtS = pair.sender.transmitting.vtS := again.outstanding.vtS.trans out.vtS.symm
        have isValue := (inv.numbered n original isSent).number
        rw [CorrectPeer.sentAfter, if_pos same]
        refine inv.of_transmitting (prefix_refl _) again.outstanding (inv.streamed.congr again.sameQueue)
          inv.numbered (inv.flight_append (prefix_refl _) ⟨original, isSent, ?_⟩ isValue (by omega))
        exact unpolled_setPollingBit original pollingBit
      · rw [isNext] at isAfter
        cases isAfter
        have carries := built.carries inv.streamed enough
        have numbered := carries.numbered out.vtS
        have other : after.vtS ≠ pair.sender.transmitting.vtS := by
          rw [built.vtS]
          exact CorrectPeer.increment_ne _
        have isPrefix : pair.sent <+: pair.sent ++ [packet] := prefix_append _ _
        have isLast : (pair.sent ++ [packet])[pair.sent.length]? = some packet := getElem?_concat_length
        have length : (pair.sent ++ [packet]).length = pair.sent.length + 1 := length_append
        rw [CorrectPeer.sentAfter, if_neg other, toList_some]
        refine inv.of_transmitting isPrefix (built.outstanding out room) carries.streamed (fun n pdu isSent => ?_)
          (inv.flight_append isPrefix ⟨packet, isLast, rfl⟩ numbered.number (by omega))
        by_cases early : n < pair.sent.length
        · rw [getElem?_append_left early] at isSent
          exact inv.numbered n pdu isSent
        · have below := (List.getElem?_eq_some_iff.mp isSent).1
          obtain rfl : n = pair.sent.length := by omega
          cases isLast.symm.trans isSent
          exact numbered
  · cases moves

theorem Inv.expirePollRetransmitTimer (inv : Inv pair acked)
    (moves : step pair .expirePollRetransmitTimer = some next) : Inv next acked := by
  obtain ⟨transmitting, isExpired, kept, queue⟩ := expirePollRetransmitTimer_spec inv.outstanding
  simp only [step, isExpired] at moves
  split at moves
  · cases moves
    exact inv.of_transmitting (prefix_refl _) kept (inv.streamed.congr queue) inv.numbered inv.data
  · cases moves

/-! ## The receiver -/

theorem Inv.of_receiving {status : List (Nat × AmPdu)} (inv : Inv pair acked)
    (kept : ∀ vrMs vrH, pair.receiver.receiving.Receiving pair.vrR vrMs vrH pair.placed (assemblyAt pair.sent) ->
      ∃ further, receiving.Receiving pair.vrR further vrH pair.placed (assemblyAt pair.sent))
    (reports : ∀ entry ∈ status, Reports pair.placed pair.sent.length entry.1 entry.2) :
    Inv { pair with receiver := { pair.receiver with receiving := receiving }, status := status } acked := by
  refine ⟨inv.outstanding, inv.streamed, inv.numbered, inv.onlySends, inv.onlyReceives, ?_, inv.placed, inv.data,
    reports⟩
  obtain ⟨vrMs, vrH, bound, receives⟩ := inv.receiving
  obtain ⟨further, isFurther⟩ := kept vrMs vrH receives
  exact ⟨further, vrH, bound, isFurther⟩

/-- What is reported missing fits into the window, and so into a STATUS PDU. -/
theorem length_missing (placed : ReceivingSide.Placed) (n count : Nat) :
    (ReceivingSide.missing placed n count).length ≤ count := by
  rw [ReceivingSide.missing, length_map]
  apply (length_filter_le _ _).trans
  rw [length_range']

theorem addHeader_status {sn : SequenceNumber10} {nacks : List Nat} (small : ∀ nack ∈ nacks, nack < 1024)
    (few : nacks.length ≤ 512) :
    addHeader (buildStatus sn nacks) [] = .ok ⟨buildStatus sn nacks, []⟩ := by
  obtain ⟨bytes, isWritten, length, -⟩ := @NrRlcAmHeader.deserialize_buildStatus [] sn nacks small
  have size : (buildStatus sn nacks).getSerializedSize = (2 + fieldsLength nacks.length) % 65536 := by
    rw [buildStatus_eq]
    exact UInt16.toNat_ofNat'
  have bound : fieldsLength nacks.length ≤ 1024 := by
    rw [fieldsLength_eq]
    omega
  rw [addHeader, isWritten]
  dsimp only
  rw [if_pos (by omega)]

/-- What an opportunity of the receiver does: it is too small, there is nothing to send, or a STATUS
PDU is sent. -/
theorem Inv.receiverOpportunity_cases (inv : Inv pair acked) (bytes : UInt32) :
    pair.receiver.doNotifyTxOpportunity bytes = .error .txOpportunityTooSmall ∨
      pair.receiver.doNotifyTxOpportunity bytes = .ok (pair.receiver, none) ∨
      ∃ packet, pair.receiver.doNotifyTxOpportunity bytes =
          .ok ({ pair.receiver with receiving := pair.receiver.receiving.statusPduSent }, some packet) ∧
        Reports pair.placed pair.sent.length (earliest pair.vrR packet.header.ackSn.value) packet ∧
        ∀ k, pair.vrR ≤ k + windowSize -> k < earliest pair.vrR packet.header.ackSn.value ->
          k % 1024 ∈ packet.header.nackSnList -> pair.placed k = none := by
  have size : windowSize = 512 := rfl
  obtain ⟨vrMs, vrH, bound, receives⟩ := inv.receiving
  have window := receives.buffered.vrH_window
  have orderH := receives.buffered.vrMs_vrH
  unfold NrRlcAm.doNotifyTxOpportunity
  split
  · exact .inl rfl
  · split
    · unfold NrRlcAm.sendStatusPdu
      split
      · exact .inl rfl
      · obtain ⟨count, ack, isBuilt, more, atMost, -, between⟩ := ReceivingSide.buildStatusPdu_spec receives bytes
        have few := length_missing pair.placed pair.vrR count
        have small : ∀ nack ∈ ReceivingSide.missing pair.placed pair.vrR count, nack < 1024 := by
          intro nack mem
          obtain ⟨k, -, -, -, rfl⟩ := ReceivingSide.mem_missing.mp mem
          omega
        rw [isBuilt, Except.bind, addHeader_status small (by omega)]
        refine .inr (.inr ⟨_, rfl, ?_⟩)
        have isAck : earliest pair.vrR (buildStatus (reading pair.vrR ack)
            (ReceivingSide.missing pair.placed pair.vrR count)).ackSn.value = ack := by
          apply earliest_ofNat <;> omega
        rw [isAck]
        rw [buildStatus_eq]
        refine ⟨⟨⟨rfl, rfl⟩, rfl, by omega, fun k below => ?_⟩, fun k near below isNack => ?_⟩
        -- Below VR(R) and from where the loop ended, all is placed.
        · by_cases isPlaced : pair.placed k = none
          · refine .inr (ReceivingSide.mem_missing.mpr ⟨k, ?_, ?_, isPlaced, rfl⟩)
            · by_contra under
              exact receives.buffered.below_vrR k (by omega) isPlaced
            · by_contra beyond
              exact between k (by omega) below isPlaced
          · exact .inl isPlaced
        · obtain ⟨other, above, beneath, isMissing, same⟩ := ReceivingSide.mem_missing.mp isNack
          obtain rfl : k = other := by omega
          exact isMissing
    · refine .inr (.inl ?_)
      rename_i enough _
      rw [TransmittingSide.doNotifyTxOpportunity, if_neg enough, inv.onlyReceives.1, inv.onlyReceives.2]
      rfl

theorem Inv.receiverOpportunity (inv : Inv pair acked)
    (moves : step pair (.receiverOpportunity bytes) = some next) : Inv next acked := by
  simp only [step] at moves
  rcases inv.receiverOpportunity_cases bytes with failed | none | ⟨packet, isSent, reports⟩
  · rw [failed] at moves
    cases moves
  · rw [none] at moves
    cases moves
    refine inv.of_receiving (fun vrMs vrH receives => ⟨vrMs, receives⟩) ?_
    rw [statusAfter, map_none, toList_none, append_nil]
    exact inv.status
  · rw [isSent] at moves
    cases moves
    refine inv.of_receiving (fun vrMs vrH receives => ⟨vrMs, receives.congr_status _ _ _⟩) fun entry mem => ?_
    rcases mem_append.mp mem with early | late
    · exact inv.status entry early
    · obtain rfl := mem_singleton.mp late
      exact reports.1

theorem Inv.expireReorderingTimer_ok (inv : Inv pair acked) (runs : pair.receiver.receiving.reorderingTimer = true) :
    ∃ receiving, pair.receiver.receiving.expireReorderingTimer = .ok receiving ∧
      Inv { pair with receiver := { pair.receiver with receiving := receiving } } acked := by
  obtain ⟨vrMs, vrH, bound, receives⟩ := inv.receiving
  obtain ⟨final, further, isExpired, kept⟩ := ReceivingSide.expireReorderingTimer_spec receives runs
  refine ⟨final, isExpired, inv.outstanding, inv.streamed, inv.numbered, inv.onlySends, inv.onlyReceives, ?_,
    inv.placed, inv.data, inv.status⟩
  exact ⟨further, vrH, bound, kept⟩

/-! ## Arrivals -/

theorem placedAfter_mono (pair : Pair) (n : Nat) (pdu : AmPdu) (k : Nat) (isPlaced : pair.placed k ≠ none) :
    pair.placedAfter n pdu k ≠ none := by
  unfold placedAfter
  split
  · by_cases same : k = n
    · subst same
      simp
    · rw [update_of_ne same]
      exact isPlaced
  · exact isPlaced

theorem Inv.originates_of_placedAfter (inv : Inv pair acked)
    (originates : Originates pair.sent n pdu) {k : Nat} {q : AmPdu}
    (isPlaced : pair.placedAfter n pdu k = some q) : Originates pair.sent k q := by
  unfold placedAfter at isPlaced
  split at isPlaced
  · by_cases same : k = n
    · subst same
      rw [update_self] at isPlaced
      exact some.inj isPlaced ▸ originates
    · rw [update_of_ne same] at isPlaced
      exact inv.placed k q isPlaced
  · exact inv.placed k q isPlaced

/-- Whether a PDU is placed, in unreduced numbers: its number is taken as one from VR(R) on. -/
theorem places_eq (receives : pair.receiver.receiving.Receiving vrR vrMs vrH placed (assemblyAt sent))
    (isNumber : pdu.header.sequenceNumber.value = Fin.ofNat 1024 n) (above : vrR ≤ n) (below : n < vrR + 1024) :
    places pair.receiver pdu = (decide (n < vrR + windowSize) && (placed n).isNone) := by
  rw [places, ReceivingSide.isInsideReceivingWindow_reading receives.buffered.isVrR receives.isVrMr isNumber above
    below, isNumber, receives.buffered.rxonBuffer_reading above below, isNone_map]

section

variable (inv : Inv pair acked)
include inv

/-- A data PDU that is placed under its own number, or not at all. -/
theorem Inv.dataArrives_ok (originates : Originates pair.sent n pdu)
    (own : places pair.receiver pdu = true -> n = earliest pair.vrR pdu.header.sequenceNumber.value) :
    ∃ receiving reached, pair.receiver.doReceivePdu pdu = .ok { pair.receiver with receiving := receiving } ∧
      pair.vrR ≤ reached ∧ reached ≤ pair.vrR + windowSize ∧ ∃ vrMs vrH, vrH ≤ pair.sent.length ∧
        receiving.Receiving reached vrMs vrH (pair.placedAfter n pdu) (assemblyAt pair.sent) := by
  obtain ⟨vrMs, vrH, bound, receives⟩ := inv.receiving
  have window := receives.buffered.vrH_window
  have isNumber := (ofNat_earliest pair.vrR pdu.header.sequenceNumber.value).symm
  have above := le_earliest pair.vrR pdu.header.sequenceNumber.value
  have below := earliest_lt pair.vrR pdu.header.sequenceNumber.value
  revert own isNumber above below
  generalize earliest pair.vrR pdu.header.sequenceNumber.value = m
  intro own isNumber above below
  rw [places_eq receives isNumber above below] at own
  have received : ∀ {receiving : ReceivingSide}, pair.receiver.receiving.receiveData pdu = .ok receiving ->
      pair.receiver.doReceivePdu pdu = .ok { pair.receiver with receiving := receiving } := by
    intro receiving isReceived
    rw [NrRlcAm.doReceivePdu, if_pos (originates.numbered inv.numbered).isDataPdu, isReceived]
    rfl
  have isAfter : pair.placedAfter n pdu =
      if (decide (m < pair.vrR + windowSize) && (pair.placed m).isNone) = true then
        update pair.placed n (some pdu) else pair.placed := by
    rw [placedAfter, places_eq receives isNumber above below]
  by_cases inside : m < pair.vrR + windowSize
  · have updated : pair.placedAfter n pdu = update pair.placed m (some ((pair.placed m).getD pdu)) := by
      rw [isAfter]
      cases isPlaced : pair.placed m with
      | none =>
        rw [own (by simp [inside, isPlaced]), if_pos (by simp [inside])]
        rfl
      | some q =>
        rw [if_neg (by simp)]
        exact (update_eq_self_iff.mpr isPlaced.symm).symm
    obtain ⟨final, reached, further, isReceived, more, kept⟩ := ReceivingSide.receiveData_inside receives
      (fun k q isPlaced =>
        (inv.originates_of_placedAfter originates
          (updated ▸ isPlaced)).inStream inv.streamed inv.numbered) isNumber above inside
    have isSent : m < pair.sent.length := by
      apply (inv.originates_of_placedAfter originates (k := m) (q := (pair.placed m).getD pdu) _).below
      rw [updated, update_self]
    have order := kept.buffered.vrR_vrMs
    have orderH := kept.buffered.vrMs_vrH
    rw [← updated] at kept
    exact ⟨final, reached, received isReceived, more, by omega, further, _, by omega, kept⟩
  · obtain ⟨final, isReceived, kept⟩ := ReceivingSide.receiveData_outside receives isNumber (by omega) below
    rw [isAfter, if_neg (by simp [inside])]
    exact ⟨final, pair.vrR, received isReceived, Nat.le_refl _, by omega, vrMs, vrH, bound, kept⟩

/-- A data PDU that arrives is placed under its own number, if it is placed. -/
def PlacesOwn (pair : Pair) (action : Action) : Prop :=
  ∀ entry ∈ pair.arrivingData action, places pair.receiver entry.2 = true ->
    entry.1 = earliest pair.vrR entry.2.header.sequenceNumber.value

/-- The numbers that a STATUS PDU acknowledges when it arrives: ACK_SN is taken as a number from
VT(A) on. -/
def ConfirmsNow (pair : Pair) (pdu : AmPdu) (k : Nat) : Prop :=
  Confirms pdu.header pair.vtA (earliest pair.vtA pdu.header.ackSn.value) pair.sent.length k

/-- The acknowledged numbers after a step. -/
def ackedAfter (pair : Pair) (acked : Nat -> Prop) (action : Action) (k : Nat) : Prop :=
  acked k ∨ ∃ entry ∈ pair.arrivingStatus action, pair.ConfirmsNow entry.2 k

theorem Inv.acked_eq (none : ∀ before : Pair, before.arrivingStatus action = none)
    (before : Pair) : Inv pair (ackedAfter before acked action) := by
  have same : ackedAfter before acked action = acked := by
    ext k
    simp [ackedAfter, none before]
  rw [same]
  exact inv

theorem Inv.dataArrives (own : PlacesOwn pair (.dataArrives i))
    (moves : step pair (.dataArrives i) = some next) : Inv next acked := by
  have size : windowSize = 512 := rfl
  simp only [step] at moves
  split at moves
  · cases moves
  · rename_i n pdu isFlight
    have originates := inv.data (n, pdu) (mem_of_getElem? isFlight)
    obtain ⟨receiving, reached, isReceived, more, near, vrMs, vrH, bound, kept⟩ :=
      inv.dataArrives_ok originates (own (n, pdu) isFlight)
    rw [isReceived] at moves
    cases moves
    have isReached : earliest pair.vrR receiving.vrR.value = reached := by
      rw [kept.buffered.isVrR]
      apply earliest_ofNat <;> omega
    refine ⟨inv.outstanding, inv.streamed, inv.numbered, inv.onlySends, inv.onlyReceives, ⟨vrMs, vrH, bound, ?_⟩, ?_,
      fun entry mem => inv.data entry (mem_of_mem_eraseIdx mem), fun entry mem =>
        (inv.status entry mem).mono (Nat.le_refl _) (placedAfter_mono pair n pdu)⟩
    · rw [isReached]
      exact kept
    · exact fun k q => inv.originates_of_placedAfter originates

/-- A STATUS PDU arrives. It fails an assertion if it reports a number missing that has been
acknowledged. -/
theorem Inv.statusArrives_cases (reports : Reports pair.placed pair.sent.length ack pdu) :
    (∃ transmitting further, pair.sender.doReceivePdu pdu = .ok { pair.sender with transmitting := transmitting } ∧
      transmitting.Outstanding further pair.sent (fun k => acked k ∨ pair.ConfirmsNow pdu k) ∧
      SameQueue pair.sender.transmitting transmitting ∧ pair.vtA ≤ further) ∨
    pair.sender.doReceivePdu pdu = .error .nackedPduMissing ∧
      ∃ k, pair.vtA ≤ k ∧ k < earliest pair.vtA pdu.header.ackSn.value ∧ k < pair.sent.length ∧
        k % 1024 ∈ pdu.header.nackSnList ∧ acked k := by
  rw [NrRlcAm.doReceivePdu, reports.isControlPdu.1, reports.isControlPdu.2]
  rcases receiveStatus_cases inv.outstanding (ofNat_earliest pair.vtA pdu.header.ackSn.value).symm (le_earliest _ _)
    (earliest_lt _ _) with ⟨transmitting, further, isReceived, kept, queue, more⟩ | ⟨failed, nacked⟩
  · rw [isReceived]
    exact .inl ⟨transmitting, further, rfl, kept, queue, more⟩
  · rw [failed]
    exact .inr ⟨rfl, nacked⟩

theorem Inv.statusArrives (moves : step pair (.statusArrives i) = some next) :
    Inv next (ackedAfter pair acked (.statusArrives i)) := by
  have size : windowSize = 512 := rfl
  simp only [step] at moves
  split at moves
  · cases moves
  · rename_i ack pdu isFlight
    have reports := inv.status (ack, pdu) (mem_of_getElem? isFlight)
    rcases inv.statusArrives_cases reports with ⟨transmitting, further, isReceived, kept, queue, more⟩ | ⟨failed, -⟩
    · rw [isReceived] at moves
      cases moves
      have order := kept.lowest_le
      have window := inv.outstanding.le_window
      have isVtA : earliest pair.vtA transmitting.vtA.value = further := by
        rw [kept.vtA]
        apply earliest_ofNat <;> omega
      refine ⟨?_, inv.streamed.congr queue, inv.numbered, inv.onlySends, inv.onlyReceives, inv.receiving, inv.placed,
        inv.data, fun entry mem => inv.status entry (mem_of_mem_eraseIdx mem)⟩
      rw [isVtA]
      refine kept.acked_congr fun k => or_congr_right ?_
      simp [arrivingStatus, isFlight]
    · rw [failed] at moves
      cases moves

theorem Inv.arrivingData {entry : Nat × AmPdu}
    (isArriving : entry ∈ pair.arrivingData action) : Originates pair.sent entry.1 entry.2 := by
  cases action with
  | dataArrives i => exact inv.data entry (mem_of_getElem? isArriving)
  | _ => cases isArriving

theorem Inv.step (own : PlacesOwn pair action)
    (moves : step pair action = some next) : Inv next (ackedAfter pair acked action) := by
  cases action with
  | transmitPdcpPdu p now => exact (inv.transmitPdcpPdu moves).acked_eq (fun _ => rfl) pair
  | senderOpportunity bytes => exact (inv.senderOpportunity moves).acked_eq (fun _ => rfl) pair
  | receiverOpportunity bytes => exact (inv.receiverOpportunity moves).acked_eq (fun _ => rfl) pair
  | expirePollRetransmitTimer => exact (inv.expirePollRetransmitTimer moves).acked_eq (fun _ => rfl) pair
  | expireReorderingTimer =>
    simp only [Pair.step] at moves
    split at moves
    · rename_i runs
      obtain ⟨receiving, isExpired, kept⟩ := inv.expireReorderingTimer_ok runs
      rw [isExpired] at moves
      cases moves
      exact kept.acked_eq (fun _ => rfl) pair
    · cases moves
  | expireStatusProhibitTimer =>
    simp only [Pair.step] at moves
    split at moves
    · cases moves
      exact (inv.of_receiving (fun vrMs vrH receives => ⟨vrMs, receives.congr_status _ _ _⟩) inv.status).acked_eq
        (fun _ => rfl) pair
    · cases moves
  | dataLost i =>
    simp only [Pair.step] at moves
    split at moves
    · cases moves
      have kept : Inv { pair with data := pair.data.eraseIdx i } acked :=
        ⟨inv.outstanding, inv.streamed, inv.numbered, inv.onlySends, inv.onlyReceives, inv.receiving, inv.placed,
          fun entry mem => inv.data entry (mem_of_mem_eraseIdx mem), inv.status⟩
      exact kept.acked_eq (fun _ => rfl) pair
    · cases moves
  | dataArrives i => exact (inv.dataArrives own moves).acked_eq (fun _ => rfl) pair
  | statusLost i =>
    simp only [Pair.step] at moves
    split at moves
    · cases moves
      have kept : Inv { pair with status := pair.status.eraseIdx i } acked :=
        ⟨inv.outstanding, inv.streamed, inv.numbered, inv.onlySends, inv.onlyReceives, inv.receiving, inv.placed,
          inv.data, fun entry mem => inv.status entry (mem_of_mem_eraseIdx mem)⟩
      exact kept.acked_eq (fun _ => rfl) pair
    · cases moves
  | statusArrives i => exact inv.statusArrives moves

end

end Pair
end Am
end Ns3.Nr
