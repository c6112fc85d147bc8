import Ns3.Nr.Rlc.Am.NrRlcAm
import Ns3.Nr.Rlc.Am.TransmitWindow
import Ns3.Nr.Rlc.HeaderCodec
import Ns3.Semantics.Run

/-!
# A sender and a correct peer

The peer receives PDUs that were sent, and reports in STATUS PDUs which ones it has not received.
The STATUS PDUs arrive in the order in which they were sent, as far as they are not lost.
-/

namespace Ns3.Nr.Am

open Semantics SequenceNumber10 TransmittingSide List Option

/-- What a STATUS PDU says, in unreduced numbers. -/
structure Report where
  ackSn : Nat
  nacks : List Nat

/-- The STATUS PDU of a report. -/
def Report.pdu (report : Report) : AmPdu where
  header := NrRlcAmHeader.buildStatus (reading 0 report.ackSn) (report.nacks.map (· % 1024))
  data := []

def Report.Confirms (report : Report) (n : Nat) : Prop :=
  n < report.ackSn ∧ n ∉ report.nacks

/-- What a correct peer reports after it has received the given PDUs: below ACK_SN exactly the
missing ones, and ACK_SN itself is missing, but not above the PDU behind the highest one that was
received. -/
structure Report.Correct (report : Report) (received : List Nat) : Prop where
  reported : ∀ n, n ∈ report.nacks ↔ n < report.ackSn ∧ n ∉ received
  missing : report.ackSn ∉ received
  below_highest : ∀ n < report.ackSn, ∃ m ∈ received, n ≤ m

namespace CorrectPeer

structure Link where
  sender : NrRlcAm
  /-- The new data PDUs that the sender has sent, each under the number of its place. -/
  sent : List AmPdu
  received : List Nat
  /-- The STATUS PDUs in flight, the oldest one in front. -/
  inFlight : List Report
  arrived : List Report

inductive Action where
  | transmitPdcpPdu (p : List UInt8) (now : Nat)
  | txOpportunity (bytes : UInt32)
  | expirePollRetransmitTimer
  | expireReorderingTimer
  | expireStatusProhibitTimer
  /-- The sender receives a data PDU of the peer. -/
  | receiveData (pdu : AmPdu)
  | peerReceives (n : Nat)
  | peerReports (report : Report)
  | statusLost
  | statusArrives

/-- The new data PDUs after an opportunity on which a PDU was sent. -/
def sentAfter (before after : NrRlcAm) (sent : List AmPdu) (pdu : Option AmPdu) : List AmPdu :=
  if after.transmitting.vtS = before.transmitting.vtS then sent else sent ++ pdu.toList

def step (link : Link) : Action -> Option Link
  | .transmitPdcpPdu p now =>
    some { link with
      sender := { link.sender with transmitting := (link.sender.transmitting.doTransmitPdcpPdu p now).1 } }
  | .txOpportunity bytes =>
    match link.sender.doNotifyTxOpportunity bytes with
    | .ok (sender, pdu) =>
      some { link with sender := sender, sent := sentAfter link.sender sender link.sent pdu }
    | .error _ => none
  | .expirePollRetransmitTimer =>
    match link.sender.transmitting.expirePollRetransmitTimer with
    | .ok transmitting => some { link with sender := { link.sender with transmitting := transmitting } }
    | .error _ => none
  | .expireReorderingTimer =>
    match link.sender.receiving.expireReorderingTimer with
    | .ok receiving => some { link with sender := { link.sender with receiving := receiving } }
    | .error _ => none
  | .expireStatusProhibitTimer =>
    some { link with
      sender := { link.sender with receiving := link.sender.receiving.expireStatusProhibitTimer } }
  | .receiveData pdu =>
    match link.sender.receiving.receiveData pdu with
    | .ok receiving => some { link with sender := { link.sender with receiving := receiving } }
    | .error _ => none
  | .peerReceives n => if n < link.sent.length then some { link with received := n :: link.received } else none
  | .peerReports report => some { link with inFlight := link.inFlight ++ [report] }
  | .statusLost =>
    match link.inFlight with
    | [] => none
    | _ :: inFlight => some { link with inFlight := inFlight }
  | .statusArrives =>
    match link.inFlight with
    | [] => none
    | report :: inFlight =>
      match link.sender.doReceivePdu report.pdu with
      | .ok sender =>
        some { link with sender := sender, inFlight := inFlight, arrived := link.arrived ++ [report] }
      | .error _ => none

/-- An entity as it is created, with its attributes. -/
def Initial (link : Link) : Prop :=
  ∃ maxTxBufferSize bigEnough, link =
    ⟨⟨{ maxTxBufferSize := maxTxBufferSize, txOpportunityForRetxAlwaysBigEnough := bigEnough }, {}⟩, [], [], [], []⟩

def system : System Link Action where
  Initial := Initial
  step := step

/-- The peer reports what it has received. -/
def PeerCorrect (link : Link) : Action -> Prop
  | .peerReports report => report.Correct link.received
  | _ => True

/-- The PDUs that the reports which have arrived confirm. -/
def Acknowledged (link : Link) (n : Nat) : Prop :=
  ∃ report ∈ link.arrived, report.Confirms n

/-- No report takes back what one before it confirms. -/
def Growing (reports : List Report) : Prop :=
  reports.Pairwise fun report later => ∀ n, report.Confirms n -> n ∉ later.nacks ∧ n ≠ later.ackSn

structure Inv (link : Link) : Prop where
  outstanding : ∃ lowest, link.sender.transmitting.Outstanding lowest link.sent (Acknowledged link)
  growing : Growing (link.arrived ++ link.inFlight)
  confirmed : ∀ report ∈ link.arrived ++ link.inFlight, ∀ n, report.Confirms n -> n ∈ link.received
  known : ∀ n ∈ link.received, n < link.sent.length
  bounded : ∀ report ∈ link.inFlight, report.ackSn ≤ link.sent.length
  nacksBelow : ∀ report ∈ link.inFlight, ∀ n ∈ report.nacks, n < report.ackSn

theorem Inv.initial {link : Link} (isInitial : Initial link) : Inv link := by
  obtain ⟨maxTxBufferSize, bigEnough, rfl⟩ := isInitial
  refine ⟨⟨0, ?_⟩, List.Pairwise.nil, by simp, by simp, by simp, by simp⟩
  exact Outstanding.initial.acked_congr fun n => by simp [Acknowledged]

variable {link next : Link} {report : Report} {inFlight : List Report}

/-- What has arrived already is confirmed by none of the numbers that a report in flight has as
missing. -/
theorem Inv.not_acknowledged (inv : Inv link) (mem : report ∈ link.inFlight) {n : Nat}
    (acked : Acknowledged link n) : n ∉ report.nacks ∧ n ≠ report.ackSn := by
  obtain ⟨earlier, isEarlier, confirms⟩ := acked
  exact (pairwise_append.mp inv.growing).2.2 earlier isEarlier report mem n confirms

theorem Report.mem_pdu {k : Nat} :
    k % 1024 ∈ report.pdu.header.nackSnList ↔ ∃ n ∈ report.nacks, n % 1024 = k % 1024 := by
  rw [Report.pdu, NrRlcAmHeader.buildStatus_eq]
  exact List.mem_map

theorem Inv.statusArrives (inv : Inv link) (isFlight : link.inFlight = report :: inFlight) :
    ∃ sender, link.sender.doReceivePdu report.pdu = .ok sender ∧
      Inv { link with sender := sender, inFlight := inFlight, arrived := link.arrived ++ [report] } := by
  obtain ⟨lowest, out⟩ := inv.outstanding
  have window := out.le_window
  have size : windowSize = 512 := rfl
  have mem : report ∈ link.inFlight := isFlight ▸ mem_cons_self
  have bounded := inv.bounded report mem
  -- A number below VT(A) is acknowledged, so it is not the ACK_SN of a report.
  have above : lowest ≤ report.ackSn := by
    by_contra below
    exact (inv.not_acknowledged mem (out.passed _ (by omega))).2 rfl
  have nackAbove : ∀ n ∈ report.nacks, lowest ≤ n := by
    intro n isNack
    by_contra below
    exact (inv.not_acknowledged mem (out.passed n (by omega))).1 isNack
  have isNack : ∀ k, lowest ≤ k -> k < report.ackSn ->
      (k % 1024 ∈ report.pdu.header.nackSnList ↔ k ∈ report.nacks) := by
    intro k isAbove isBelow
    rw [Report.mem_pdu]
    constructor
    · rintro ⟨n, isNack, same⟩
      have nAbove := nackAbove n isNack
      have nBelow := inv.nacksBelow report mem n isNack
      obtain rfl : n = k := by omega
      exact isNack
    · intro isNack
      exact ⟨k, isNack, rfl⟩
  have isAck : report.pdu.header.ackSn.value = Fin.ofNat 1024 report.ackSn := by
    rw [Report.pdu, NrRlcAmHeader.buildStatus_eq]
    rfl
  obtain ⟨final, further, isFinal, outstanding, -, -⟩ := receiveStatus_spec out isAck above (by omega)
    (fun k isAbove isBelow _ isNacked isAcked =>
      (inv.not_acknowledged mem isAcked).1 ((isNack k isAbove isBelow).mp isNacked))
  have control : report.pdu.header.isDataPdu = false ∧ report.pdu.header.isControlPdu = true := by
    rw [Report.pdu, NrRlcAmHeader.buildStatus_eq]
    exact ⟨rfl, rfl⟩
  refine ⟨{ link.sender with transmitting := final }, ?_, ⟨⟨further, ?_⟩, ?_, ?_, inv.known, ?_, ?_⟩⟩
  · rw [NrRlcAm.doReceivePdu, control.1, control.2, isFinal]
    rfl
  · refine outstanding.acked_congr fun k => ?_
    simp only [Acknowledged, mem_append, mem_singleton]
    constructor
    · rintro (⟨earlier, isEarlier, confirms⟩ | ⟨isAbove, isBelow, -, free⟩)
      · exact ⟨earlier, .inl isEarlier, confirms⟩
      · exact ⟨report, .inr rfl, isBelow, fun nacked => free ((isNack k isAbove isBelow).mpr nacked)⟩
    · rintro ⟨other, isArrived | rfl, confirms⟩
      · exact .inl ⟨other, isArrived, confirms⟩
      · by_cases passed : k < lowest
        · exact .inl (out.passed k passed)
        · have isAbove : lowest ≤ k := by omega
          refine .inr ⟨isAbove, confirms.1, Nat.lt_of_lt_of_le confirms.1 bounded, fun nacked => ?_⟩
          exact confirms.2 ((isNack k isAbove confirms.1).mp nacked)
  · have growing := inv.growing
    rw [isFlight] at growing
    simpa [Growing] using growing
  · intro other isMember
    apply inv.confirmed other
    rw [isFlight]
    simpa using isMember
  · intro other isMember
    exact inv.bounded other (isFlight ▸ mem_cons_of_mem _ isMember)
  · intro other isMember
    exact inv.nacksBelow other (isFlight ▸ mem_cons_of_mem _ isMember)

section Opportunity

variable {sender after : NrRlcAm} {lowest : Nat} {sent : List AmPdu} {acked : Nat -> Prop} {bytes : UInt32}
  {pdu : Option AmPdu}

theorem increment_ne (n : SequenceNumber10) : n.increment ≠ n := by
  intro same
  have value : (n.value + 1) % 1024 = (n.value : Nat) := congrArg (fun sn => sn.value.val) same
  have small := n.value.isLt
  omega

theorem txOpportunity_spec (out : sender.transmitting.Outstanding lowest sent acked)
    (isAfter : sender.doNotifyTxOpportunity bytes = .ok (after, pdu)) :
    after.transmitting.Outstanding lowest (sentAfter sender after sent pdu) acked ∧
      sent <+: sentAfter sender after sent pdu := by
  have unchanged : after.transmitting = sender.transmitting ->
      after.transmitting.Outstanding lowest (sentAfter sender after sent pdu) acked ∧
        sent <+: sentAfter sender after sent pdu := by
    intro same
    rw [sentAfter, if_pos (by rw [same]), same]
    exact ⟨out, prefix_refl _⟩
  unfold NrRlcAm.doNotifyTxOpportunity at isAfter
  split at isAfter
  · cases isAfter
  · split at isAfter
    · apply unchanged
      unfold NrRlcAm.sendStatusPdu at isAfter
      split at isAfter
      · cases isAfter
      · cases built : sender.receiving.buildStatusPdu bytes with
        | error failure =>
          rw [built] at isAfter
          cases isAfter
        | ok header =>
          rw [built] at isAfter
          cases added : addHeader header [] with
          | error failure =>
            rw [Except.bind, added] at isAfter
            cases isAfter
          | ok packet =>
            rw [Except.bind, added] at isAfter
            cases isAfter
            rfl
    · rcases @doNotifyTxOpportunity_cases sender.transmitting lowest sent acked bytes out with
        ⟨failure, failed, -⟩ | none | ⟨next, packet, isNext, again⟩ | ⟨next, packet, isNext, -, room, built⟩
      · rw [failed] at isAfter
        cases isAfter
      · rw [none] at isAfter
        cases isAfter
        exact unchanged rfl
      · rw [isNext] at isAfter
        cases isAfter
        have same : next.vtS = sender.transmitting.vtS := again.outstanding.vtS.trans out.vtS.symm
        rw [sentAfter, if_pos same]
        exact ⟨again.outstanding, prefix_refl _⟩
      · rw [isNext] at isAfter
        cases isAfter
        have other : next.vtS ≠ sender.transmitting.vtS := by
          rw [built.vtS]
          exact increment_ne _
        rw [sentAfter, if_neg other]
        exact ⟨built.outstanding out room, prefix_append _ _⟩

theorem txOpportunity_finds (out : sender.transmitting.Outstanding lowest sent acked) :
    sender.doNotifyTxOpportunity bytes ≠ .error .noPduForRetx := by
  unfold NrRlcAm.doNotifyTxOpportunity
  split
  · simp
  · split
    · unfold NrRlcAm.sendStatusPdu
      split
      · simp
      · cases built : sender.receiving.buildStatusPdu bytes with
        | error failure =>
          have other : failure ≠ .noPduForRetx := by
            unfold ReceivingSide.buildStatusPdu checked at built
            dsimp only at built
            split at built
            · rw [Except.bind] at built
              split at built
              · cases built
              · cases built
                simp
            · cases built
              simp
          simpa [Except.bind] using other
        | ok header =>
          cases added : addHeader header [] with
          | error failure =>
            obtain rfl := Outstanding.addHeader_error added
            simp [Except.bind, Except.map, added]
          | ok packet => simp [Except.bind, Except.map, added]
    · rcases @doNotifyTxOpportunity_cases sender.transmitting lowest sent acked bytes out with
        ⟨failure, failed, other⟩ | none | ⟨next, packet, isNext, -⟩ | ⟨next, packet, isNext, -⟩
      · rw [failed]
        simpa [Except.map] using other
      all_goals simp [*, Except.map]

end Opportunity

theorem Inv.of_sender {sender : NrRlcAm} {sent : List AmPdu} (inv : Inv link) (isPrefix : link.sent <+: sent)
    (outstanding : ∃ lowest, sender.transmitting.Outstanding lowest sent (Acknowledged link)) :
    Inv { link with sender := sender, sent := sent } := by
  have length := isPrefix.length_le
  refine ⟨outstanding, inv.growing, inv.confirmed, fun n mem => ?_, fun report mem => ?_, inv.nacksBelow⟩
  · exact Nat.lt_of_lt_of_le (inv.known n mem) length
  · exact (inv.bounded report mem).trans length

theorem Inv.peerReports (inv : Inv link) (correct : report.Correct link.received) :
    Inv { link with inFlight := link.inFlight ++ [report] } := by
  refine ⟨inv.outstanding, ?_, ?_, inv.known, ?_, ?_⟩
  · rw [← append_assoc]
    apply pairwise_append.mpr
    refine ⟨inv.growing, pairwise_singleton _ _, fun earlier mem later isLater n confirms => ?_⟩
    obtain rfl := mem_singleton.mp isLater
    have isReceived := inv.confirmed earlier mem n confirms
    refine ⟨fun isNack => ((correct.reported n).mp isNack).2 isReceived, ?_⟩
    rintro rfl
    exact correct.missing isReceived
  · intro other mem n confirms
    rw [← append_assoc] at mem
    rcases mem_append.mp mem with isEarlier | isLater
    · exact inv.confirmed other isEarlier n confirms
    · obtain rfl := mem_singleton.mp isLater
      by_contra missing
      exact confirms.2 ((correct.reported n).mpr ⟨confirms.1, missing⟩)
  · intro other mem
    rcases mem_append.mp mem with isEarlier | isLater
    · exact inv.bounded other isEarlier
    · obtain rfl := mem_singleton.mp isLater
      by_contra beyond
      obtain ⟨m, isReceived, above⟩ := correct.below_highest link.sent.length (Nat.lt_of_not_le beyond)
      have below := inv.known m isReceived
      omega
  · intro other mem n isNack
    rcases mem_append.mp mem with isEarlier | isLater
    · exact inv.nacksBelow other isEarlier n isNack
    · obtain rfl := mem_singleton.mp isLater
      exact ((correct.reported n).mp isNack).1

theorem Inv.step {action : Action} (inv : Inv link) (correct : PeerCorrect link action)
    (moves : step link action = some next) : Inv next := by
  obtain ⟨lowest, out⟩ := inv.outstanding
  cases action with
  | transmitPdcpPdu p now =>
    cases moves
    refine inv.of_sender (prefix_refl _) ⟨lowest, ?_⟩
    unfold TransmittingSide.doTransmitPdcpPdu
    dsimp only
    split
    · exact out.congr rfl rfl rfl ⟨out.counted.exclusive, out.counted.txedBufferSize, out.counted.retxBufferSize⟩ rfl
    · exact out
  | txOpportunity bytes =>
    unfold CorrectPeer.step at moves
    dsimp only at moves
    split at moves
    · rename_i sender pdu isAfter
      cases moves
      obtain ⟨kept, isPrefix⟩ := txOpportunity_spec out isAfter
      exact inv.of_sender isPrefix ⟨lowest, kept⟩
    · cases moves
  | expirePollRetransmitTimer =>
    obtain ⟨side, isSide, kept, -⟩ := expirePollRetransmitTimer_spec out
    unfold CorrectPeer.step at moves
    simp only [isSide] at moves
    cases moves
    exact inv.of_sender (prefix_refl _) ⟨lowest, kept⟩
  | expireReorderingTimer =>
    unfold CorrectPeer.step at moves
    dsimp only at moves
    split at moves
    · cases moves
      exact inv.of_sender (prefix_refl _) ⟨lowest, out⟩
    · cases moves
  | expireStatusProhibitTimer =>
    cases moves
    exact inv.of_sender (prefix_refl _) ⟨lowest, out⟩
  | receiveData pdu =>
    unfold CorrectPeer.step at moves
    dsimp only at moves
    split at moves
    · cases moves
      exact inv.of_sender (prefix_refl _) ⟨lowest, out⟩
    · cases moves
  | peerReceives n =>
    unfold CorrectPeer.step at moves
    dsimp only at moves
    split at moves
    · rename_i isSent
      cases moves
      refine ⟨⟨lowest, out⟩, inv.growing, ?_, ?_, inv.bounded, inv.nacksBelow⟩
      · intro other mem k confirms
        exact mem_cons_of_mem _ (inv.confirmed other mem k confirms)
      · rintro k (_ | ⟨_, mem⟩)
        · exact isSent
        · exact inv.known k mem
    · cases moves
  | peerReports report =>
    cases moves
    exact inv.peerReports correct
  | statusLost =>
    unfold CorrectPeer.step at moves
    dsimp only at moves
    split at moves
    · cases moves
    · rename_i lost inFlight isFlight
      cases moves
      have fewer : (link.arrived ++ inFlight).Sublist (link.arrived ++ link.inFlight) := by
        rw [isFlight]
        exact List.Sublist.append_left (sublist_cons_self _ _) _
      refine ⟨⟨lowest, out⟩, inv.growing.sublist fewer, fun other mem => ?_, inv.known, fun other mem => ?_,
        fun other mem => ?_⟩
      · exact inv.confirmed other (fewer.subset mem)
      · exact inv.bounded other (isFlight ▸ mem_cons_of_mem _ mem)
      · exact inv.nacksBelow other (isFlight ▸ mem_cons_of_mem _ mem)
  | statusArrives =>
    cases isFlight : link.inFlight with
    | nil =>
      unfold CorrectPeer.step at moves
      simp [isFlight] at moves
    | cons report inFlight =>
      obtain ⟨sender, isSender, kept⟩ := inv.statusArrives isFlight
      unfold CorrectPeer.step at moves
      simp only [isFlight, isSender] at moves
      cases moves
      exact kept

/-- What holds of a sender in terms of the lowest number that is not known to be acknowledged. -/
structure TransmitInvariant (link : Link) (vtA : Nat) : Prop where
  vtA_vtS : vtA ≤ link.sent.length
  vtS_vtMs : link.sent.length ≤ vtA + 512
  numbers : link.sender.transmitting.vtA = reading vtA vtA ∧
    link.sender.transmitting.vtS = reading vtA link.sent.length ∧
    link.sender.transmitting.vtMs = reading vtA (vtA + 512)
  /-- They are ordered for the code as well. -/
  ordered : link.sender.transmitting.vtA.le link.sender.transmitting.vtS ∧
    link.sender.transmitting.vtS.le link.sender.transmitting.vtMs
  /-- A PDU that was sent from VT(A) on is in the one buffer, in the other one, or acknowledged. -/
  placed : ∀ n pdu, vtA ≤ n -> link.sent[n]? = some pdu ->
    let txed := (link.sender.transmitting.txedBuffer (Fin.ofNat 1024 n)).pdu
    let retx := (link.sender.transmitting.retxBuffer (Fin.ofNat 1024 n)).pdu
    txed = some pdu ∧ retx = none ∧ ¬Acknowledged link n ∨ txed = none ∧ retx = some pdu ∧ ¬Acknowledged link n ∨
      txed = none ∧ retx = none ∧ Acknowledged link n
  elsewhere : ∀ sn, (∀ n, vtA ≤ n -> n < link.sent.length -> sn ≠ Fin.ofNat 1024 n) ->
    (link.sender.transmitting.txedBuffer sn).pdu = none ∧ (link.sender.transmitting.retxBuffer sn).pdu = none
  /-- The counters have 32 bits. -/
  txedBufferSize : link.sender.transmitting.txedBufferSize =
    UInt32.ofNat (heldBytes link.sender.transmitting.txedBuffer)
  retxBufferSize : link.sender.transmitting.retxBufferSize =
    UInt32.ofNat (heldBytes link.sender.transmitting.retxBuffer)
  /-- The assertion at the end of a retransmission opportunity. -/
  finds : ∀ bytes, link.sender.doNotifyTxOpportunity bytes ≠ .error .noPduForRetx

theorem Inv.transmitInvariant (inv : Inv link) : ∃ vtA, TransmitInvariant link vtA := by
  obtain ⟨lowest, out⟩ := inv.outstanding
  have window := out.le_window
  have order := out.lowest_le
  have size : windowSize = 512 := rfl
  refine ⟨lowest, order, window, ⟨out.vtA, out.vtS, out.vtMs⟩, ⟨?_, ?_⟩, ?_, ?_, out.counted.txedBufferSize,
    out.counted.retxBufferSize, fun bytes => txOpportunity_finds out⟩
  · rw [out.vtA, out.vtS, reading_le (Nat.le_refl _) (by omega) order (by omega)]
    exact decide_eq_true order
  · rw [out.vtS, out.vtMs, reading_le order (by omega) (by omega) (by omega)]
    exact decide_eq_true window
  · intro n pdu above isSent
    have below : n < link.sent.length := (List.getElem?_eq_some_iff.mp isSent).1
    cases txed : (link.sender.transmitting.txedBuffer (Fin.ofNat 1024 n)).pdu with
    | some held =>
      have isHeld := (out.stored_reading above below).mp (stored_txed txed)
      obtain rfl : pdu = held := some.inj (isSent.symm.trans isHeld.2)
      have empty : (link.sender.transmitting.retxBuffer (Fin.ofNat 1024 n)).pdu = none := by
        rcases out.counted.exclusive (Fin.ofNat 1024 n) with none | none
        · exact absurd (none.symm.trans txed) (by simp)
        · exact none
      exact .inl ⟨rfl, empty, isHeld.1⟩
    | none =>
      cases retx : (link.sender.transmitting.retxBuffer (Fin.ofNat 1024 n)).pdu with
      | some held =>
        have isHeld := (out.stored_reading above below).mp (stored_retx out.counted retx)
        obtain rfl : pdu = held := some.inj (isSent.symm.trans isHeld.2)
        exact .inr (.inl ⟨rfl, rfl, isHeld.1⟩)
      | none =>
        refine .inr (.inr ⟨rfl, rfl, (out.stored_eq_none_iff above below).mp ?_⟩)
        rw [stored, txed, retx, or_none]
  · intro sn other
    apply or_eq_none_iff.mp
    apply eq_none_iff_forall_ne_some.mpr
    intro pdu held
    obtain ⟨n, above, -, same, isSent⟩ := (out.stored_iff sn pdu).mp held
    exact other n above (List.getElem?_eq_some_iff.mp isSent).1 same

/-- In every run with a correct peer, the window has its size, each PDU of it is in exactly one
place, the counters are the sums of what is held, and a retransmission finds a PDU. -/
theorem transmitSide_invariant {trace : List (Link × Action)} (run : system.Run trace link)
    (correct : ∀ entry ∈ trace, PeerCorrect entry.1 entry.2) : ∃ vtA, TransmitInvariant link vtA :=
  (run.invariant_of_guard Inv PeerCorrect (fun _ isInitial => .initial isInitial)
    (fun inv isCorrect transition => inv.step isCorrect transition) correct).transmitInvariant

def sendsTwo : List Action :=
  [.transmitPdcpPdu [1, 2, 3] 0, .txOpportunity 10, .transmitPdcpPdu [4, 5] 0, .txOpportunity 10, .peerReceives 1]

/-- Two PDUs are sent, and the second one is received. -/
def receivedLink : Link :=
  (system.exec ⟨{}, [], [], [], []⟩ sendsTwo).get rfl

/-- What is reported of both arrives. -/
def acknowledgedLink : Link :=
  (system.exec receivedLink [.peerReports ⟨2, [0]⟩, .statusArrives]).get rfl

theorem transmitSide_invariant_acknowledged : (acknowledgedLink.sender.transmitting.vtS = .reading 0 2 ∧
      (acknowledgedLink.sender.transmitting.retxBuffer 0).pdu = acknowledgedLink.sent[0]? ∧
      (acknowledgedLink.sender.transmitting.txedBuffer 1).pdu = none) ∧
    ∃ vtA, TransmitInvariant acknowledgedLink vtA := by
  have isReceived : receivedLink.received = [1] := rfl
  have isInitial : system.Initial ⟨{}, [], [], [], []⟩ := ⟨10240, false, rfl⟩
  have first : system.Run _ receivedLink := System.run_of_exec isInitial
    (eq_some_of_isSome (rfl : (system.exec ⟨{}, [], [], [], []⟩ sendsTwo).isSome = true))
  have whole : system.Run _ acknowledgedLink := first.exec
    (eq_some_of_isSome (rfl : (system.exec receivedLink [.peerReports ⟨2, [0]⟩, .statusArrives]).isSome = true))
  refine ⟨⟨rfl, rfl, rfl⟩, transmitSide_invariant whole fun entry member => ?_⟩
  rcases mem_append.mp member with early | late
  · have isAction := System.action_mem_of_mem_steps early
    simp only [sendsTwo, mem_cons, not_mem_nil, or_false] at isAction
    rcases isAction with is | is | is | is | is <;> exact is ▸ trivial
  · have reports : ∀ entry ∈ system.steps receivedLink [.peerReports ⟨2, [0]⟩, .statusArrives],
        entry.2 = .statusArrives ∨ entry = (receivedLink, .peerReports ⟨2, [0]⟩) := by
      intro entry member
      rcases mem_cons.mp member with rfl | further
      · exact .inr rfl
      · exact .inl (mem_singleton.mp (System.action_mem_of_mem_steps further))
    rcases reports entry late with is | rfl
    · rw [PeerCorrect.eq_def, is]
      trivial
    · have correct : Report.Correct ⟨2, [0]⟩ [1] := by
        refine ⟨fun n => ?_, by decide, fun n below => ⟨1, mem_singleton_self 1, Nat.le_of_lt_succ below⟩⟩
        simp only [mem_singleton]
        omega
      rwa [← isReceived] at correct

end CorrectPeer
end Ns3.Nr.Am
