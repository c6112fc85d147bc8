import Ns3.Nr.Rlc.Am.NrRlcAm
import Ns3.Nr.Rlc.Am.TransmitWindow
import Ns3.Nr.Rlc.HeaderCodec

/-!
# The size of a STATUS PDU

Two NACKs take three bytes: the first of a pair two of them, the second one the third. The test for
room takes it the other way round.
-/

namespace Ns3.Nr.Am

open SequenceNumber10 NrRlcAmHeader TransmittingSide List UInt16 Nat ReceivingSide

/-- The header of a STATUS PDU before its ACK_SN is set. -/
def statusHeader (nacks : List Nat) : NrRlcAmHeader :=
  nacks.foldl pushNack (setControlPdu {} statusPdu)

variable {side : ReceivingSide} {nacks : List Nat} {bytes : UInt16} {sn : SequenceNumber10} {packet : AmPdu}

theorem statusHeader_eq (nacks : List Nat) : statusHeader nacks =
      { headerLength := ofNat (2 + fieldsLength nacks.length)
        dataControlBit := controlPdu
        controlPduType := statusPdu
        nackSnList := nacks } := by
  rw [statusHeader, pushNacks_spec rfl]
  rfl

/-- Whether one more NACK is pushed behind so many. -/
def HasRoom (bytes count : Nat) : Prop :=
  if count % 2 = 0 then 2 + fieldsLength count < bytes else 3 + fieldsLength count < bytes

theorem oneMoreNackWouldFitIn_statusHeader (few : nacks.length < 1024) :
    (statusHeader nacks).oneMoreNackWouldFitIn bytes = true ↔ HasRoom bytes.toNat nacks.length := by
  have length : (ofNat (2 + fieldsLength nacks.length)).toNat = 2 + fieldsLength nacks.length := by
    rw [toNat_ofNat', fieldsLength_eq]
    omega
  rw [statusHeader_eq, oneMoreNackWouldFitIn, HasRoom]
  dsimp only
  split
  · rw [decide_eq_true_eq, lt_iff_toNat_lt, length]
  · rw [decide_eq_true_eq, length]
    omega

/-- The numbers that the loop over them may report as missing. -/
def ReceivingSide.missingBelow (side : ReceivingSide) (rounds : Nat) (sn : SequenceNumber10) : List SequenceNumber10 :=
  (visited side.vrMs rounds sn).filter fun sn => !side.complete sn

theorem pushNacks_count {rounds : Nat} (few : nacks.length + rounds ≤ 1024) :
    ∃ more last, side.pushNacks bytes rounds sn (statusHeader nacks) = (statusHeader (nacks ++ more), last) ∧
      more.length ≤ (side.missingBelow rounds sn).length ∧
      (∀ count, nacks.length ≤ count -> count < nacks.length + more.length -> HasRoom bytes.toNat count) ∧
      (more.length = (side.missingBelow rounds sn).length ∨ ¬HasRoom bytes.toNat (nacks.length + more.length)) := by
  induction rounds generalizing nacks sn with
  | zero => exact
      ⟨[], sn, by rw [append_nil]; rfl, le_refl _, fun count above below => by simp at below; omega, .inl rfl⟩
  | succ rounds ih =>
    unfold pushNacks
    by_cases below : sn.lt side.vrMs = true
    · have isMissing : side.missingBelow (rounds + 1) sn =
          if side.complete sn then side.missingBelow rounds sn.increment
          else sn :: side.missingBelow rounds sn.increment := by
        rw [missingBelow, visited, if_pos below, filter_cons]
        cases side.complete sn <;> rfl
      rw [isMissing]
      by_cases room : (statusHeader nacks).oneMoreNackWouldFitIn bytes = true
      · rw [if_pos ⟨below, room⟩]
        have hasRoom := (oneMoreNackWouldFitIn_statusHeader (by omega)).mp room
        cases side.complete sn with
        | true =>
          obtain ⟨more, last, isPushed, atMost, roomy, stops⟩ := @ih nacks sn.increment (by omega)
          exact ⟨more, last, isPushed, atMost, roomy, stops⟩
        | false =>
          have length : (nacks ++ [sn.getValue]).length = nacks.length + 1 := length_append
          obtain ⟨more, last, isPushed, atMost, roomy, stops⟩ := @ih (nacks ++ [sn.getValue])
            sn.increment (by omega)
          have pushed : (statusHeader nacks).pushNack sn.getValue = statusHeader (nacks ++ [sn.getValue]) := by
            rw [statusHeader, statusHeader, foldl_append]
            rfl
          refine ⟨sn.getValue :: more, last, ?_, ?_, fun count above under => ?_, ?_⟩
          · dsimp only
            rw [if_neg Bool.false_ne_true, pushed, isPushed, append_assoc, singleton_append]
          · exact succ_le_succ atMost
          · by_cases same : count = nacks.length
            · exact same ▸ hasRoom
            · exact roomy count (by omega) (by rw [length_cons] at under; omega)
          · rw [length_cons, if_neg Bool.false_ne_true, length_cons]
            rw [length, add_right_comm] at stops
            exact stops.imp (congrArg succ) id
      · rw [if_neg fun both => room both.2]
        refine ⟨[], sn, by rw [append_nil], zero_le _, fun count above under => ?_, .inr ?_⟩
        · rw [length_nil] at under
          omega
        · exact fun hasRoom => room ((oneMoreNackWouldFitIn_statusHeader (by omega)).mpr hasRoom)
    · rw [if_neg fun both => below both.1]
      have none : side.missingBelow (rounds + 1) sn = [] := by
        rw [missingBelow, visited, if_neg below, filter_nil]
      rw [none]
      refine ⟨[], sn, by rw [append_nil], le_refl _, fun count above under => ?_, .inl rfl⟩
      rw [length_nil] at under
      omega

/-- With so many missing numbers, a STATUS PDU has one byte more than its opportunity. -/
def Overruns (bytes missing : Nat) : Prop :=
  bytes < 65536 ∧ bytes % 3 = 0 ∧ 2 * bytes / 3 ≤ missing + 1

/-- The loop ends with a header that fits, unless the room is a multiple of three and the last NACK
that is pushed is the first one of a pair. -/
theorem size_le_iff {bytes missing count : Nat} (enough : 4 ≤ bytes) (atMost : count ≤ missing)
    (roomy : ∀ k < count, HasRoom bytes k) (stops : count = missing ∨ ¬HasRoom bytes count) :
    2 + fieldsLength count ≤ bytes ↔ ¬(bytes % 3 = 0 ∧ 2 * bytes / 3 ≤ missing + 1) := by
  unfold HasRoom at roomy stops
  simp only [fieldsLength_eq] at roomy stops ⊢
  constructor
  · rintro fits ⟨multiple, many⟩
    rcases stops with all | full
    · omega
    · split at full <;> omega
  · intro other
    by_contra larger
    have pos : 0 < count := by omega
    have last := roomy (count - 1) (by omega)
    split at last <;> omega

theorem length_visited (bound : SequenceNumber10) (rounds : Nat) (sn : SequenceNumber10) :
    (visited bound rounds sn).length ≤ rounds := by
  induction rounds generalizing sn with
  | zero => exact le_refl _
  | succ rounds ih =>
    unfold visited
    split
    · exact succ_le_succ (ih sn.increment)
    · exact zero_le _

variable {am after : NrRlcAm} {bytes : UInt32}

theorem sendStatusPdu_eq {sent : Option AmPdu}
    (isSent : am.sendStatusPdu bytes = .ok (after, sent)) :
    ∃ sn, sent = some ⟨((am.receiving.pushNacks (ofNat bytes.toNat) 1024 am.receiving.vrR
        (statusHeader [])).1).setAckSn sn, []⟩ ∧
      after = { am with receiving := am.receiving.statusPduSent } := by
  unfold NrRlcAm.sendStatusPdu at isSent
  split at isSent
  · cases isSent
  · cases built : am.receiving.buildStatusPdu bytes with
    | error failure =>
      rw [built] at isSent
      cases isSent
    | ok header =>
      rw [built, Except.bind] at isSent
      unfold buildStatusPdu checked at built
      dsimp only at built
      split at built
      · rw [Except.bind] at built
        split at built
        · obtain rfl := Except.ok.inj built
          cases added : addHeader _ [] with
          | error failure =>
            rw [added] at isSent
            cases isSent
          | ok packet =>
            rw [added] at isSent
            obtain rfl := Outstanding.addHeader_eq added
            cases isSent
            exact ⟨_, rfl, rfl⟩
        · cases built
      · cases built

theorem sendStatusPdu_size (enough : 4 ≤ bytes.toNat) (isSent : am.sendStatusPdu bytes = .ok (after, some packet)) :
    packet.getSize ≤ bytes.toNat ↔ ¬Overruns bytes.toNat (am.receiving.missingBelow 1024 am.receiving.vrR).length := by
  obtain ⟨more, last, isPushed, atMost, roomy, stops⟩ := @pushNacks_count am.receiving [] (ofNat bytes.toNat)
    am.receiving.vrR 1024 (le_refl _)
  have few : (am.receiving.missingBelow 1024 am.receiving.vrR).length ≤ 1024 :=
    (length_filter_le _ _).trans (length_visited _ _ _)
  have isPacket : packet.getSize = 2 + fieldsLength more.length := by
    obtain ⟨sn, isSome, -⟩ := sendStatusPdu_eq isSent
    cases isSome
    rw [isPushed, nil_append, statusHeader_eq]
    change (ofNat (2 + fieldsLength more.length)).toNat + 0 = 2 + fieldsLength more.length
    rw [toNat_ofNat', fieldsLength_eq]
    omega
  have isBytes : (ofNat bytes.toNat).toNat = bytes.toNat % 65536 := toNat_ofNat'
  rw [isPacket, Overruns]
  by_cases small : bytes.toNat < 65536
  · rw [isBytes, mod_eq_of_lt small] at roomy stops
    simp only [length_nil, zero_add] at roomy stops
    rw [size_le_iff enough atMost (fun k below => roomy k (zero_le _) below) stops]
    simp [small]
  · refine iff_of_true ?_ fun overruns => small overruns.1
    rw [fieldsLength_eq]
    omega

end Ns3.Nr.Am
