import Ns3.Nr.Rlc.Am.PairInvariant

/-!
# Delivery in order

The receiver delivers what the sender has accepted: each SDU once, in sequence, unchanged.
-/

namespace Ns3.Nr.Am.Pair

open Semantics SequenceNumber10

/-- A data PDU that arrives has a number that is at most 512 away from VR(R). -/
def Near (pair : Pair) (action : Action) : Prop :=
  ∀ entry ∈ pair.arrivingData action, pair.vrR ≤ entry.1 + 512 ∧ entry.1 ≤ pair.vrR + 512

instance (pair : Pair) (action : Action) : Decidable (Near pair action) :=
  inferInstanceAs (Decidable (∀ entry ∈ pair.arrivingData action, _ ∧ _))

/-- What holds of a receiver, with its numbers not reduced. -/
structure Delivers (pair : Pair) (vrMs vrH : Nat) : Prop where
  delivered : pair.receiver.receiving.reassembly.delivered <+: pair.accepted
  vrR_vrMs : pair.vrR ≤ vrMs
  vrMs_vrH : vrMs ≤ vrH
  vrH_vrMr : vrH ≤ pair.vrR + 512
  numbers : pair.receiver.receiving.vrR = reading pair.vrR pair.vrR ∧
    pair.receiver.receiving.vrMs = reading pair.vrR vrMs ∧ pair.receiver.receiving.vrH = reading pair.vrR vrH ∧
    pair.receiver.receiving.vrMr = reading pair.vrR (pair.vrR + 512)
  /-- They are ordered for the code as well. -/
  ordered : pair.receiver.receiving.vrR.le pair.receiver.receiving.vrMs ∧
    pair.receiver.receiving.vrMs.le pair.receiver.receiving.vrH ∧
    pair.receiver.receiving.vrH.le pair.receiver.receiving.vrMr
  /-- No assertion fails, and each transition of the reassembly is possible. -/
  dataArrives : ∀ n pdu, (n, pdu) ∈ pair.data -> pair.vrR ≤ n + 512 -> n ≤ pair.vrR + 512 ->
    ∃ receiver, pair.receiver.doReceivePdu pdu = .ok receiver
  expireReorderingTimer : pair.receiver.receiving.reorderingTimer = true ->
    ∃ receiving, pair.receiver.receiving.expireReorderingTimer = .ok receiving
  opportunity : ∀ bytes, pair.receiver.doNotifyTxOpportunity bytes = .error .txOpportunityTooSmall ∨
    ∃ result, pair.receiver.doNotifyTxOpportunity bytes = .ok result

variable {pair : Pair} {acked : Nat -> Prop} {n : Nat} {pdu : AmPdu}

/-- A PDU near VR(R) is not taken for another one that would be placed. -/
theorem Inv.own_of_near (inv : Inv pair acked) (originates : Originates pair.sent n pdu) (above : pair.vrR ≤ n + 512)
    (below : n ≤ pair.vrR + 512) (isPlaced : places pair.receiver pdu = true) :
    n = earliest pair.vrR pdu.header.sequenceNumber.value := by
  have size : windowSize = 512 := rfl
  have isValue := (originates.numbered inv.numbered).number
  obtain ⟨vrMs, vrH, bound, receives⟩ := inv.receiving
  by_cases passed : n < pair.vrR
  · have isNext : pdu.header.sequenceNumber.value = Fin.ofNat 1024 (n + 1024) := isValue.trans (ofNat_add_1024 n).symm
    rw [places_eq receives isNext (by omega) (by omega), Bool.and_eq_true, decide_eq_true_eq] at isPlaced
    omega
  · rw [isValue]
    exact (earliest_ofNat (by omega) (by omega)).symm

theorem Inv.delivers (inv : Inv pair acked) : ∃ vrMs vrH, Delivers pair vrMs vrH := by
  have size : windowSize = 512 := rfl
  obtain ⟨vrMs, vrH, bound, receives⟩ := inv.receiving
  have window := receives.buffered.vrH_window
  have order := receives.buffered.vrR_vrMs
  have orderH := receives.buffered.vrMs_vrH
  refine ⟨vrMs, vrH, ?_, order, orderH, window, ?_, ?_, fun n pdu mem above below => ?_, fun runs => ?_,
    fun bytes => ?_⟩
  · rw [receives.assembled.delivered]
    exact assemblyAt_complete inv.streamed pair.vrR
  · exact ⟨receives.buffered.isVrR, receives.buffered.isVrMs, receives.buffered.isVrH, receives.isVrMr⟩
  · rw [receives.buffered.isVrR, receives.buffered.isVrMs, receives.buffered.isVrH, receives.isVrMr,
      reading_le (Nat.le_refl _) (by omega) order (by omega), reading_le order (by omega) (by omega) (by omega),
      reading_le (by omega) (by omega) (by omega) (by omega)]
    exact ⟨decide_eq_true order, decide_eq_true orderH, decide_eq_true window⟩
  · have originates := inv.data (n, pdu) mem
    obtain ⟨receiving, reached, isReceived, -⟩ := inv.dataArrives_ok originates (inv.own_of_near originates above below)
    exact ⟨_, isReceived⟩
  · obtain ⟨receiving, isExpired, -⟩ := inv.expireReorderingTimer_ok runs
    exact ⟨receiving, isExpired⟩
  · rcases inv.receiverOpportunity_cases bytes with failed | none | ⟨packet, isSent, -⟩
    · exact .inl failed
    · exact .inr ⟨_, none⟩
    · exact .inr ⟨_, isSent⟩

theorem Inv.placesOwn {action : Action} (inv : Inv pair acked) (near : Near pair action) : PlacesOwn pair action := by
  intro entry isArriving
  obtain ⟨above, below⟩ := near entry isArriving
  exact inv.own_of_near (inv.arrivingData isArriving) above below

/-- In every run in which the data PDUs arrive near VR(R), what is delivered are the first ones of
the SDUs that were accepted. -/
theorem delivers_in_order {trace : List (Pair × Action)} (run : system.Run trace pair)
    (near : ∀ entry ∈ trace, Near entry.1 entry.2) : ∃ vrMs vrH, Delivers pair vrMs vrH := by
  obtain ⟨acked, inv⟩ := run.invariant_of_guard (fun pair => ∃ acked, Inv pair acked) Near
    (fun _ isInitial => ⟨_, Inv.initial isInitial⟩)
    (fun ⟨acked, inv⟩ near transition => ⟨_, inv.step (inv.placesOwn near) transition⟩) near
  exact inv.delivers

/-- Two SDUs are sent, and the second one arrives first. -/
def reordering : List Action :=
  [.transmitPdcpPdu [1, 2] 0, .senderOpportunity 10, .transmitPdcpPdu [3] 0, .senderOpportunity 10, .dataArrives 1,
    .dataArrives 0]

def reorderedPair : Pair :=
  (system.exec { sender := {}, receiver := {} } reordering).get (by decide +kernel)

theorem delivers_in_order_reordered : reorderedPair.receiver.receiving.reassembly.delivered = [[1, 2], [3]] ∧
    ∃ vrMs vrH, Delivers reorderedPair vrMs vrH := by
  have isInitial : system.Initial { sender := {}, receiver := {} } := ⟨10240, false, 10240, false, rfl⟩
  have run : system.Run (system.steps { sender := {}, receiver := {} } reordering) reorderedPair :=
    System.run_of_exec isInitial (Option.some_get _).symm
  exact ⟨by decide +kernel, delivers_in_order run (by decide +kernel)⟩

end Ns3.Nr.Am.Pair
