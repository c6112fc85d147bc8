import Ns3.Nr.Rlc.Am.PairInvariant

/-!
# Acknowledgements of what was received

The sender takes the numbers of a STATUS PDU relative to VT(A), which may have moved on since the
receiver has built it, and the receiver takes the number of a data PDU relative to VR(R). An
outdated PDU is taken for a new one.
-/

namespace Ns3.Nr.Am.Pair

open Semantics SequenceNumber10 TransmittingSide Option

/-- What has not been placed by the receiver is still held by the sender, and VT(A) has not moved
past it. -/
def OnlyReceived (pair : Pair) : Prop :=
  ∀ n pdu, pair.sent[n]? = some pdu -> pair.placed n = none ->
    pair.vtA ≤ n ∧ ((pair.sender.transmitting.txedBuffer (ofValue n).value).pdu = some pdu ∨
      (pair.sender.transmitting.retxBuffer (ofValue n).value).pdu = some pdu)

/-- A STATUS PDU acknowledges a number. -/
def Acknowledges (entry : Nat × AmPdu) (k : Nat) : Prop :=
  k < entry.1 ∧ k % 1024 ∉ entry.2.header.nackSnList

/-- A STATUS PDU reports a number missing. -/
def Misses (entry : Nat × AmPdu) (k : Nat) : Prop :=
  k < entry.1 ∧ k % 1024 ∈ entry.2.header.nackSnList

/-- The STATUS PDUs in flight, each with the newer ones that have arrived before it. -/
abbrev Flight :=
  List ((Nat × AmPdu) × List (Nat × AmPdu))

/-- A STATUS PDU is built behind those in flight; one that arrives has overtaken those in front of
it. -/
def flightAfter (flight : Flight) (step : Pair × Action) : Flight :=
  match step.2 with
  | .receiverOpportunity bytes =>
    match step.1.receiver.doNotifyTxOpportunity bytes with
    | .ok (_, pdu) => flight ++ ((step.1.statusAfter pdu).drop step.1.status.length).map fun entry => (entry, [])
    | .error _ => flight
  | .statusLost i => flight.eraseIdx i
  | .statusArrives i =>
    ((flight.take i).map fun older => (older.1, older.2 ++ (step.1.status[i]?).toList)) ++ flight.drop (i + 1)
  | _ => flight

def flightOf (trace : List (Pair × Action)) : Flight :=
  trace.foldl flightAfter []

/-- A STATUS PDU is not outdated: VT(A) has not moved past its ACK_SN, unless nothing is
outstanding, and no newer STATUS PDU that has arrived before it acknowledges what it reports
missing. -/
def Timely (pair : Pair) (entry : (Nat × AmPdu) × List (Nat × AmPdu)) : Prop :=
  (pair.vtA ≤ entry.1.1 ∨ pair.vtA = pair.sent.length) ∧
    ∀ k < pair.sent.length, pair.vtA ≤ k -> Misses entry.1 k -> ∀ newer ∈ entry.2, ¬Acknowledges newer k

/-- The STATUS PDU that arrives in a step, with the newer ones that have arrived before it. -/
def arrivingOf (flight : Flight) : Action -> Option ((Nat × AmPdu) × List (Nat × AmPdu))
  | .statusArrives i => flight[i]?
  | _ => none

/-- No outdated PDU arrives: the number of a data PDU is not below VR(R), unless the receiver
discards the PDU. -/
def InTime (flight : Flight) (pair : Pair) (action : Action) : Prop :=
  (∀ entry ∈ pair.arrivingData action, pair.vrR ≤ entry.1 ∨ places pair.receiver entry.2 = false) ∧
    ∀ entry ∈ arrivingOf flight action, pair.Timely entry

instance (entry : Nat × AmPdu) (k : Nat) : Decidable (Acknowledges entry k) :=
  inferInstanceAs (Decidable (_ ∧ _))

instance (entry : Nat × AmPdu) (k : Nat) : Decidable (Misses entry k) :=
  inferInstanceAs (Decidable (_ ∧ _))

instance (pair : Pair) (entry : (Nat × AmPdu) × List (Nat × AmPdu)) : Decidable (pair.Timely entry) :=
  inferInstanceAs (Decidable (_ ∧ ∀ k < pair.sent.length, _ -> _ -> ∀ newer ∈ entry.2, _))

instance (flight : Flight) (pair : Pair) (action : Action) : Decidable (InTime flight pair action) :=
  inferInstanceAs (Decidable ((∀ entry ∈ pair.arrivingData action, _ ∨ _) ∧
    ∀ entry ∈ arrivingOf flight action, pair.Timely entry))

variable {pair next : Pair} {acked : Nat -> Prop} {n : Nat} {pdu : AmPdu} {action : Action}

/-- No STATUS PDU in flight reports missing what an older one or the sender has as received, unless
a newer one that has overtaken it acknowledges that. -/
structure Orderly (pair : Pair) (acked : Nat -> Prop) (flight : Flight) : Prop where
  inFlight : flight.map Prod.fst = pair.status
  ordered : pair.status.Pairwise fun older newer => ∀ k, pair.vtA ≤ k -> Misses newer k -> ¬Acknowledges older k
  overtaken : ∀ entry ∈ flight, ∀ k, pair.vtA ≤ k -> Misses entry.1 k -> acked k ->
    ∃ newer ∈ entry.2, Acknowledges newer k

/-- What the sender knows to be received has been placed. -/
structure Sound (pair : Pair) (acked : Nat -> Prop) (flight : Flight) : Prop extends Orderly pair acked flight where
  inv : Inv pair acked
  received : ∀ k, acked k -> pair.placed k ≠ none

section

variable {flight : Flight} (sound : Sound pair acked flight)
include sound

theorem Sound.vtA_le : pair.vtA ≤ pair.vrR := by
  obtain ⟨vrMs, vrH, bound, receives⟩ := sound.inv.receiving
  by_contra beyond
  exact sound.received _ (sound.inv.outstanding.passed pair.vrR (by omega)) receives.vrR_missing

theorem Sound.placesOwn (inTime : InTime flight pair action) : PlacesOwn pair action := by
  intro entry isArriving isPlaced
  have originates := sound.inv.arrivingData isArriving
  have below := originates.below
  have window := sound.inv.outstanding.le_window
  have size : windowSize = 512 := rfl
  have order := sound.vtA_le
  rcases inTime.1 entry isArriving with above | discarded
  · rw [(originates.numbered sound.inv.numbered).number]
    exact (earliest_ofNat above (by omega)).symm
  · rw [isPlaced] at discarded
    cases discarded

end

variable {entry : (Nat × AmPdu) × List (Nat × AmPdu)} {flight : Flight}

theorem Inv.earliest_ack {ack : Nat} (inv : Inv pair acked) (reports : Reports pair.placed pair.sent.length ack pdu)
    (above : pair.vtA ≤ ack) : earliest pair.vtA pdu.header.ackSn.value = ack := by
  have window := inv.outstanding.le_window
  have size : windowSize = 512 := rfl
  have atMost := reports.atMost
  rw [reports.number]
  apply earliest_ofNat <;> omega

theorem Inv.arrivingStatus {status : Nat × AmPdu} (inv : Inv pair acked)
    (isArriving : status ∈ pair.arrivingStatus action) :
    Reports pair.placed pair.sent.length status.1 status.2 := by
  cases action with
  | statusArrives i => exact inv.status status (List.mem_of_getElem? isArriving)
  | _ => cases isArriving

/-- A STATUS PDU that is not outdated confirms what it acknowledges. -/
theorem Inv.acknowledges (inv : Inv pair acked) (reports : Reports pair.placed pair.sent.length entry.1.1 entry.1.2)
    (timely : pair.Timely entry) {k : Nat} (confirms : pair.ConfirmsNow entry.1.2 k) : Acknowledges entry.1 k := by
  obtain ⟨above, below, isSent, free⟩ := confirms
  rcases timely.1 with atLeast | all
  · rw [inv.earliest_ack reports atLeast] at below
    exact ⟨below, free⟩
  · omega

theorem Reports.placed {placed : ReceivingSide.Placed} {transmitted k : Nat} {status : Nat × AmPdu}
    (reports : Reports placed transmitted status.1 status.2) (acknowledges : Acknowledges status k) :
    placed k ≠ none :=
  (reports.reported k acknowledges.1).resolve_right acknowledges.2

theorem placed_mono (moves : step pair action = some next) {k : Nat} (isPlaced : pair.placed k ≠ none) :
    next.placed k ≠ none := by
  cases action <;> simp only [step] at moves
  case dataArrives i =>
    split at moves
    · cases moves
    · split at moves
      · cases moves
        exact placedAfter_mono pair _ _ k isPlaced
      · cases moves
  all_goals
    repeat' split at moves
    all_goals first | cases moves; exact isPlaced | cases moves

/-- Below VT(S), what the receiver reports missing had not been placed when it did. -/
theorem Inv.missed (inv : Inv pair acked) {packet : AmPdu} (misses : ∀ k, pair.vrR ≤ k + windowSize ->
      k < earliest pair.vrR packet.header.ackSn.value -> k % 1024 ∈ packet.header.nackSnList -> pair.placed k = none)
    {k : Nat} (above : pair.vtA ≤ k) (missing : Misses (earliest pair.vrR packet.header.ackSn.value, packet) k) :
    pair.placed k = none := by
  have window := inv.outstanding.le_window
  have order := inv.vrR_le
  exact misses k (by omega) missing.1 missing.2

namespace Sound

variable (sound : Sound pair acked flight)
include sound

theorem reports (mem : entry ∈ flight) : Reports pair.placed pair.sent.length entry.1.1 entry.1.2 := by
  refine sound.inv.status entry.1 ?_
  rw [← sound.inFlight]
  exact List.mem_map_of_mem mem

/-- The STATUS PDU that arrives, as it has been followed. -/
theorem arriving {status : Nat × AmPdu} (isArriving : status ∈ pair.arrivingStatus action) :
    ∃ newer, (status, newer) ∈ arrivingOf flight action := by
  cases action with
  | statusArrives i =>
    have isStatus : (flight.map Prod.fst)[i]? = some status := by
      rw [sound.inFlight]
      exact isArriving
    rw [List.getElem?_map] at isStatus
    obtain ⟨⟨_, newer⟩, isEntry, rfl⟩ := map_eq_some_iff.mp isStatus
    exact ⟨newer, isEntry⟩
  | _ => cases isArriving

/-- What the sender has as received after a step was so before, or is acknowledged by what arrives. -/
theorem ackedAfter (inTime : InTime flight pair action) {k : Nat} (isAcked : ackedAfter pair acked action k) :
    acked k ∨ ∃ status ∈ pair.arrivingStatus action, Acknowledges status k ∧ pair.placed k ≠ none := by
  rcases isAcked with before | ⟨status, isArriving, confirms⟩
  · exact .inl before
  · obtain ⟨newer, isEntry⟩ := sound.arriving isArriving
    have reports := sound.inv.arrivingStatus isArriving
    have acknowledges := sound.inv.acknowledges reports (inTime.2 _ isEntry) confirms
    exact .inr ⟨status, isArriving, acknowledges, reports.placed acknowledges⟩

theorem receiverOpportunity {bytes : UInt32} (moves : step pair (.receiverOpportunity bytes) = some next) :
    Orderly next acked (flightAfter flight (pair, .receiverOpportunity bytes)) := by
  simp only [step] at moves
  simp only [flightAfter]
  rcases sound.inv.receiverOpportunity_cases bytes with failed | none | ⟨packet, isSent, -, misses⟩
  · rw [failed] at moves
    cases moves
  · rw [none] at moves ⊢
    cases moves
    simpa [statusAfter] using sound.toOrderly
  · rw [isSent] at moves ⊢
    cases moves
    dsimp only
    rw [statusAfter, List.drop_left]
    refine ⟨by rw [List.map_append, sound.inFlight]; rfl, ?_, ?_⟩
    · refine List.pairwise_append.mpr ⟨sound.ordered, List.pairwise_singleton _ _, fun older mem newer isNew => ?_⟩
      obtain rfl := List.mem_singleton.mp isNew
      intro k above missing acknowledged
      exact (sound.inv.status older mem).placed acknowledged (sound.inv.missed misses above missing)
    · intro entry mem k above missing isAcked
      rcases List.mem_append.mp mem with early | late
      · exact sound.overtaken entry early k above missing isAcked
      · obtain rfl := List.mem_singleton.mp late
        exact absurd (sound.inv.missed misses above missing) (sound.received k isAcked)

theorem statusArrives {i : Nat} (inTime : InTime flight pair (.statusArrives i))
    (moves : step pair (.statusArrives i) = some next) :
    Orderly next (Pair.ackedAfter pair acked (.statusArrives i)) (flightAfter flight (pair, .statusArrives i)) := by
  have after : next.status = pair.status.eraseIdx i ∧ pair.vtA ≤ next.vtA := by
    simp only [step] at moves
    repeat' split at moves
    all_goals first | cases moves; exact ⟨rfl, le_earliest _ _⟩ | cases moves
  obtain ⟨status, increased⟩ := after
  refine ⟨?_, ?_, fun entry mem k above missing isAcked => ?_⟩
  · rw [flightAfter, status, List.eraseIdx_eq_take_drop_succ, ← sound.inFlight, List.map_append, List.map_map,
      ← List.map_take, ← List.map_drop]
    rfl
  · rw [status]
    exact (sound.ordered.sublist (List.eraseIdx_sublist _ _)).imp fun kept k above => kept k (increased.trans above)
  · rcases List.mem_append.mp mem with inFront | behind
    · -- It is older than what arrives.
      obtain ⟨older, isOlder, rfl⟩ := List.mem_map.mp inFront
      rcases sound.ackedAfter inTime isAcked with before | ⟨arrived, isArriving, acknowledges, -⟩
      · obtain ⟨newer, isNewer, acknowledges⟩ :=
          sound.overtaken older (List.mem_of_mem_take isOlder) k (increased.trans above) missing before
        exact ⟨newer, List.mem_append_left _ isNewer, acknowledges⟩
      · exact ⟨arrived, List.mem_append_right _ (mem_toList.mpr isArriving), acknowledges⟩
    · rcases sound.ackedAfter inTime isAcked with before | ⟨arrived, isArriving, acknowledges, -⟩
      · exact sound.overtaken entry (List.mem_of_mem_drop behind) k (increased.trans above) missing before
      · -- It is newer, and was built when what arrives acknowledges had been placed.
        obtain ⟨below, rfl⟩ := List.getElem?_eq_some_iff.mp isArriving
        have later : entry.1 ∈ pair.status.drop (i + 1) := by
          rw [← sound.inFlight, ← List.map_drop]
          exact List.mem_map_of_mem behind
        have ordered := sound.ordered
        rw [← List.take_append_drop i pair.status, List.drop_eq_getElem_cons below] at ordered
        exact absurd acknowledges ((List.pairwise_cons.mp (List.pairwise_append.mp ordered).2.1).1 entry.1 later k
          (increased.trans above) missing)

theorem step (inTime : InTime flight pair action) (moves : step pair action = some next) :
    Sound next (Pair.ackedAfter pair acked action) (flightAfter flight (pair, action)) := by
  have orderly : Orderly next (Pair.ackedAfter pair acked action) (flightAfter flight (pair, action)) := by
    have same (none : ∀ before : Pair, before.arrivingStatus action = none) :
      Pair.ackedAfter pair acked action = acked := by
      ext k
      simp [Pair.ackedAfter, none pair]
    cases action with
    | receiverOpportunity bytes =>
      rw [same fun _ => rfl]
      exact sound.receiverOpportunity moves
    | statusArrives i => exact sound.statusArrives inTime moves
    | statusLost i =>
      rw [same fun _ => rfl]
      simp only [Pair.step] at moves
      split at moves
      · cases moves
        refine ⟨?_, sound.ordered.sublist (List.eraseIdx_sublist _ _), fun entry mem =>
          sound.overtaken entry (List.mem_of_mem_eraseIdx mem)⟩
        rw [flightAfter, ← List.eraseIdx_map, sound.inFlight]
      · cases moves
    | _ =>
      rw [same fun _ => rfl]
      simp only [Pair.step] at moves
      repeat' split at moves
      all_goals first | cases moves; exact ⟨sound.inFlight, sound.ordered, sound.overtaken⟩ | cases moves
  refine ⟨orderly, sound.inv.step (sound.placesOwn inTime) moves, fun k isAcked => placed_mono moves ?_⟩
  rcases sound.ackedAfter inTime isAcked with before | ⟨-, -, -, isPlaced⟩
  · exact sound.received k before
  · exact isPlaced

end Sound

theorem Sound.onlyReceived (sound : Sound pair acked flight) : OnlyReceived pair := by
  intro n pdu isSent missing
  have unacked : ¬acked n := fun isAcked => sound.received n isAcked missing
  have above : pair.vtA ≤ n := by
    by_contra passed
    exact unacked (sound.inv.outstanding.passed n (by omega))
  refine ⟨above, or_eq_some_iff.mp ?_ |>.imp id And.right⟩
  exact (sound.inv.outstanding.stored_reading above (List.getElem?_eq_some_iff.mp isSent).1).mpr ⟨unacked, isSent⟩

/-- A STATUS PDU that is not outdated reports nothing missing that the sender does not hold. -/
theorem Sound.nacked_held (sound : Sound pair acked flight) (mem : entry ∈ flight) (timely : pair.Timely entry) :
    pair.sender.doReceivePdu entry.1.2 ≠ .error .nackedPduMissing := by
  have reports := sound.reports mem
  intro failed
  rcases sound.inv.statusArrives_cases reports with
    ⟨transmitting, further, isReceived, -⟩ | ⟨-, k, above, below, isSent, nacked, isAcked⟩
  · rw [isReceived] at failed
    cases failed
  · have atLeast : pair.vtA ≤ entry.1.1 := timely.1.elim id fun all => by omega
    rw [sound.inv.earliest_ack reports atLeast] at below
    obtain ⟨newer, isNewer, acknowledges⟩ := sound.overtaken entry mem k above ⟨below, nacked⟩ isAcked
    exact timely.2 k isSent above ⟨below, nacked⟩ newer isNewer acknowledges

/-- In every run in which no outdated PDU arrives, the sender gives up only what was received, and
finds each PDU that a STATUS PDU reports missing unless that one is outdated. -/
theorem onlyReceived_of_inTime {history : List (Pair × Action)} (run : system.Run history pair)
    (inTime : ∀ i < history.length, ∀ entry ∈ history[i]?, InTime (flightOf (history.take i)) entry.1 entry.2) :
    OnlyReceived pair ∧ ∀ entry ∈ flightOf history, pair.Timely entry ->
      pair.sender.doReceivePdu entry.1.2 ≠ .error .nackedPduMissing := by
  suffices ∃ acked, Sound pair acked (flightOf history) by
    obtain ⟨acked, sound⟩ := this
    exact ⟨sound.onlyReceived, fun entry => sound.nacked_held⟩
  induction run with
  | initial valid =>
    refine ⟨_, ⟨?_, ?_, fun _ none => absurd none List.not_mem_nil⟩, Inv.initial valid, fun _ => False.elim⟩ <;>
      obtain ⟨_, _, _, _, rfl⟩ := valid
    · rfl
    · exact List.Pairwise.nil
  | @step history pair action next prior transition ih =>
    have shorter : history.length < (history ++ [(pair, action)]).length := by simp
    obtain ⟨acked, sound⟩ := ih fun i below entry isEntry => by
      have earlier := inTime i (below.trans shorter) entry (by rwa [List.getElem?_append_left below])
      rwa [List.take_append_of_le_length below.le] at earlier
    have now := inTime history.length shorter (pair, action) List.getElem?_concat_length
    rw [List.take_left] at now
    rw [flightOf, List.foldl_append]
    exact ⟨_, sound.step now transition⟩

/-- One SDU is sent, received and acknowledged. -/
def acknowledging : List Action :=
  [.transmitPdcpPdu [1, 2] 0, .senderOpportunity 10, .dataArrives 0, .receiverOpportunity 10, .statusArrives 0]

def acknowledgedPair : Pair :=
  (system.exec { sender := {}, receiver := {} } acknowledging).get (by decide +kernel)

theorem onlyReceived_of_inTime_acknowledged : acknowledgedPair.vtA = 1 ∧ OnlyReceived acknowledgedPair ∧
    ∀ entry ∈ flightOf (system.steps { sender := {}, receiver := {} } acknowledging), acknowledgedPair.Timely entry ->
      acknowledgedPair.sender.doReceivePdu entry.1.2 ≠ .error .nackedPduMissing := by
  have isInitial : system.Initial { sender := {}, receiver := {} } := ⟨10240, false, 10240, false, rfl⟩
  have run : system.Run (system.steps { sender := {}, receiver := {} } acknowledging) acknowledgedPair :=
    System.run_of_exec isInitial (some_get _).symm
  exact ⟨by decide +kernel, onlyReceived_of_inTime run (by decide +kernel)⟩

/-- Two STATUS PDUs are built, the newer one arrives first, a third PDU is sent, and the older one
acknowledges it: its ACK_SN, which is below VT(A), is taken for a number 1024 higher. -/
def outrunAck : List Action :=
  [.transmitPdcpPdu [1] 0, .senderOpportunity 10, .dataArrives 0, .receiverOpportunity 10,
    .transmitPdcpPdu [2] 0, .senderOpportunity 10, .dataArrives 0, .expireStatusProhibitTimer, .receiverOpportunity 10,
    .statusArrives 1, .transmitPdcpPdu [3] 0, .senderOpportunity 10, .statusArrives 0]

def outrunAckPair : Pair :=
  (system.exec { sender := {}, receiver := {} } outrunAck).get (by decide +kernel)

/-- Of three PDUs two are lost. The second one is received when it is sent again, and the newer
STATUS PDU acknowledges it. The older one still reports it missing. -/
def outrunNack : List Action :=
  [.transmitPdcpPdu [1] 0, .senderOpportunity 10, .transmitPdcpPdu [2] 0, .senderOpportunity 10,
    .transmitPdcpPdu [3] 0, .senderOpportunity 10, .dataLost 0, .dataLost 0, .dataArrives 0, .expireReorderingTimer,
    .receiverOpportunity 10, .expirePollRetransmitTimer, .senderOpportunity 10, .dataLost 0, .senderOpportunity 10,
    .dataArrives 0, .senderOpportunity 10, .dataArrives 0, .expireStatusProhibitTimer, .receiverOpportunity 10,
    .statusArrives 1]

def outrunNackPair : Pair :=
  (system.exec { sender := {}, receiver := {} } outrunNack).get (by decide +kernel)

instance {Error Value : Type} [DecidableEq Error] (failure : Error) :
    DecidablePred fun result : Except Error Value => result = .error failure
  | .ok _ => .isFalse nofun
  | .error other => decidable_of_iff (other = failure) (Except.error.injEq _ _).symm.to_iff

theorem outrun_status : (∃ pair, system.Reachable pair ∧ ¬OnlyReceived pair) ∧
    ∃ pair, system.Reachable pair ∧
      ∃ entry ∈ pair.status, pair.sender.doReceivePdu entry.2 = .error .nackedPduMissing := by
  have isInitial : system.Initial { sender := {}, receiver := {} } := ⟨10240, false, 10240, false, rfl⟩
  constructor
  · refine ⟨outrunAckPair, System.reachable_of_exec isInitial outrunAck (some_get _).symm, fun only => ?_⟩
    have isSent : outrunAckPair.sent[2]?.isSome = true := by decide +kernel
    have missing : (outrunAckPair.placed 2).isNone = true := by decide +kernel
    have passed : outrunAckPair.vtA = 3 := by decide +kernel
    obtain ⟨pdu, isPdu⟩ := isSome_iff_exists.mp isSent
    have above := (only 2 pdu isPdu (isNone_iff_eq_none.mp missing)).1
    omega
  · refine ⟨outrunNackPair, System.reachable_of_exec isInitial outrunNack (some_get _).symm, ?_⟩
    decide +kernel

end Ns3.Nr.Am.Pair
