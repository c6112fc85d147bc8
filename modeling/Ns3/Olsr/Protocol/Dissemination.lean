import Ns3.Olsr.Protocol.Advertising
import Ns3.Olsr.Protocol.Topology

/-!
# Dissemination of the topology

A node that sends TC messages, and a node that receives some of them in any order and as often as
they come. The steps of the sender's sequence number are counted without a bound, so that it is
known which message is newer. `ProcessTc` compares the numbers themselves.
-/

namespace Ns3.Olsr.Protocol

open Network Semantics List Option RoutingProtocol

/-- A number comes before another where less than half of all numbers are between them. -/
def Precedes (first second : UInt16) : Prop :=
  first ≠ second ∧ (second - first).toNat < 32768

/-- The number that is advertised after some steps. -/
def ansnAfter (changes : Nat) : UInt16 :=
  65535 + UInt16.ofNat changes

theorem precedes_iff {first second : Nat} (close : first < second + 32768 ∧ second < first + 32768) :
    Precedes (ansnAfter first) (ansnAfter second) ↔ first < second := by
  rw [Precedes, ansnAfter, ansnAfter, Ne, ← UInt16.toNat_inj, UInt16.toNat_sub, UInt16.toNat_add, UInt16.toNat_add,
    UInt16.toNat_ofNat', UInt16.toNat_ofNat']
  simp only [UInt16.reduceToNat]
  omega

/-- Across the wrap the numbers do not compare as their ages do. -/
example : Precedes 65535 0 ∧ ¬(65535 : UInt16) < 0 := by
  rw [Precedes]
  decide

theorem ansnAfter_inj {first second : Nat} (close : first < second + 65536 ∧ second < first + 65536)
    (same : ansnAfter first = ansnAfter second) : first = second := by
  rw [ansnAfter, ansnAfter, ← UInt16.toNat_inj, UInt16.toNat_add, UInt16.toNat_add, UInt16.toNat_ofNat',
    UInt16.toNat_ofNat'] at same
  simp only [UInt16.reduceToNat] at same
  omega

structure Dissemination where
  /-- The main address of the sender. -/
  originator : Ipv4Address
  sender : RoutingProtocol
  /-- How often the sender has stepped its sequence number. -/
  changes : Nat
  /-- The TC messages that have been sent, each with the steps before it. -/
  sent : List (Nat × Tc)
  receiver : RoutingProtocol
  /-- The steps before the message that a neighbour of the sender was last taken from. -/
  origins : Ipv4Address -> Nat
  /-- The steps before each message that has been processed. -/
  processed : List Nat

inductive DisseminationAction where
  | sender (action : Action)
  | receiver (action : Action)
  | deliver (time : Int) (receiverIface senderIface : Ipv4Address) (header : MessageHeader) (number : Nat) (tc : Tc)

namespace Dissemination

variable (state : Dissemination)

def sendsTc : Action -> Bool
  | .tcTimer _ _ => state.sender.state.mprSelectorSet ≠ []
  | _ => false

def afterSender (action : Action) (next : RoutingProtocol) : Dissemination :=
  { state with
    sender := next
    changes := state.changes + (next.ansn - state.sender.ansn).toNat
    sent := if state.sendsTc action then state.sent ++ [(state.changes, state.sender.tcMessage)] else state.sent }

/-- Whether `ProcessTc` is called and finds the link to be symmetric. -/
def processes (time : Int) (senderIface : Ipv4Address) (header : MessageHeader) : Bool :=
  state.receiver.processes header ∧ (state.receiver.state.findSymLinkTuple senderIface time).isSome

def afterDelivery (time : Int) (senderIface : Ipv4Address) (header : MessageHeader) (number : Nat) (tc : Tc)
    (next : RoutingProtocol) : Dissemination :=
  if state.processes time senderIface header then
    { state with
      receiver := next
      processed := state.processed ++ [number]
      origins :=
        match state.receiver.state.findNewerTopologyTuple state.originator tc.ansn with
        | some _ => state.origins
        | none => fun dest => if dest ∈ tc.neighborAddresses then number else state.origins dest }
  else { state with receiver := next }

/-- What the receiver keeps of the sender. -/
def IsStored (tuple : TopologyTuple) : Prop :=
  tuple ∈ state.receiver.state.topologySet ∧ tuple.lastAddr = state.originator

end Dissemination

/-- Any copy of a message of the sender may be delivered at any time, if less than half of all
numbers are between it and what is stored. -/
inductive DisseminationStep : Dissemination -> DisseminationAction -> Dissemination -> Prop where
  | sender {state action next} (step : protocol.Step state.sender action next) :
      DisseminationStep state (.sender action) (state.afterSender action next)
  | receiver {state : Dissemination} {action next} (step : protocol.Step state.receiver action next)
      (other : ¬action.IsTcOf state.originator) :
      DisseminationStep state (.receiver action) { state with receiver := next }
  | deliver {state : Dissemination} {time receiverIface senderIface header number tc next}
      (step : protocol.Step state.receiver (.receive time receiverIface senderIface header) next)
      (originator : header.originatorAddress = state.originator) (message : header.message = .tc tc)
      (sent : (number, tc) ∈ state.sent)
      (close : ∀ tuple, state.IsStored tuple ->
        state.origins tuple.destAddr < number + 32768 ∧ number < state.origins tuple.destAddr + 32768) :
      DisseminationStep state (.deliver time receiverIface senderIface header number tc)
        (state.afterDelivery time senderIface header number tc next)

def dissemination : Transitions Dissemination DisseminationAction where
  Initial state :=
    (∃ interfaces helloInterval, state.sender = initialNode state.originator interfaces helloInterval) ∧
      protocol.Initial state.receiver ∧ state.changes = 0 ∧ state.sent = [] ∧ state.processed = []
  Step := DisseminationStep

/-- What a step must meet for the numbers to tell which message is newer: the sender does not lose a
selector with a neighbour, sends no message a full turn of the numbers after another, and the
receiver compares no numbers between which they wrap around. -/
def Dissemination.IsSound (state : Dissemination) : DisseminationAction -> Prop
  | .sender action =>
    ¬LosesSelector state.sender action ∧
      (state.sendsTc action -> ∀ entry ∈ state.sent, state.changes < entry.1 + 65536)
  | .receiver _ => True
  | .deliver _ _ _ _ _ tc =>
    ∀ tuple, state.IsStored tuple -> (tuple.sequenceNumber < tc.ansn ↔ Precedes tuple.sequenceNumber tc.ansn)

/-- Messages with the same number of steps advertise the same neighbours, and what is stored comes
from one of them. -/
structure Disseminates (state : Dissemination) : Prop where
  ansn : state.sender.ansn = ansnAfter state.changes
  sent : ∀ number tc, (number, tc) ∈ state.sent -> number ≤ state.changes ∧ tc.ansn = ansnAfter number ∧
    (number = state.changes -> tc.neighborAddresses = state.sender.advertised)
  agree : ∀ number tc other, (number, tc) ∈ state.sent -> (number, other) ∈ state.sent ->
    tc.neighborAddresses = other.neighborAddresses
  close : ∀ number tc other otherTc, (number, tc) ∈ state.sent -> (other, otherTc) ∈ state.sent ->
    number < other + 65536
  stored : ∀ tuple, state.IsStored tuple -> ∃ tc, (state.origins tuple.destAddr, tc) ∈ state.sent ∧
    tuple.sequenceNumber = tc.ansn ∧ tuple.destAddr ∈ tc.neighborAddresses ∧
      state.origins tuple.destAddr ∈ state.processed

namespace Disseminates

variable {state : Dissemination} {next : RoutingProtocol} {action : Action} {time : Int}
  {receiverIface senderIface : Ipv4Address} {header : MessageHeader} {number : Nat} {tc : Tc}

theorem initial (isInitial : dissemination.Initial state) : Disseminates state := by
  obtain ⟨⟨interfaces, helloInterval, sender⟩, ⟨mainAddress, own, interval, receiver⟩, changes,
    sent, processed⟩ := isInitial
  constructor
  · rw [sender, changes]
    rfl
  · simp [sent]
  · simp [sent]
  · simp [sent]
  · rintro tuple ⟨mem, -⟩
    rw [receiver] at mem
    cases mem

theorem afterSender (disseminates : Disseminates state) (step : protocol.Step state.sender action next)
    (sound : state.IsSound (.sender action)) : Disseminates (state.afterSender action next) := by
  obtain ⟨steps, atMost, advances⟩ := advances_step step sound.1
  have difference : (next.ansn - state.sender.ansn).toNat = steps := by
    rw [advances.1, add_sub_cancel_left, UInt16.toNat_ofNat']
    omega
  have changes : (state.afterSender action next).changes = state.changes + steps := by
    rw [Dissemination.afterSender, difference]
  have sent {entry : Nat × Tc} (mem : entry ∈ (state.afterSender action next).sent) :
      entry ∈ state.sent ∨ state.sendsTc action ∧ entry = (state.changes, state.sender.tcMessage) := by
    rw [Dissemination.afterSender] at mem
    split at mem
    case isTrue sends => exact (mem_append.1 mem).imp_right fun last => ⟨sends, mem_singleton.1 last⟩
    case isFalse => exact .inl mem
  have old {other : Nat} {tc : Tc} (mem : (other, tc) ∈ state.sent) (current : other = state.changes + steps) :
      steps = 0 := by
    have before := (disseminates.sent other tc mem).1
    omega
  constructor
  · rw [changes]
    change next.ansn = ansnAfter (state.changes + steps)
    rw [advances.1, disseminates.ansn, ansnAfter, ansnAfter, UInt16.ofNat_add, add_assoc]
  · intro other tc mem
    rw [changes]
    obtain mem | ⟨-, isNew⟩ := sent mem
    · obtain ⟨before, ansn, advertised⟩ := disseminates.sent other tc mem
      refine ⟨by omega, ansn, fun current => ?_⟩
      have none := old mem current
      exact (advertised (by omega)).trans (advances.2 none).symm
    · cases isNew
      refine ⟨by omega, disseminates.ansn, fun current => ?_⟩
      exact (advances.2 (by omega)).symm
  · intro other tc otherTc mem otherMember
    obtain mem | ⟨-, isNew⟩ := sent mem <;> obtain otherMember | ⟨-, isNew'⟩ := sent otherMember
    · exact disseminates.agree other tc otherTc mem otherMember
    · cases isNew'
      exact (disseminates.sent _ tc mem).2.2 rfl
    · cases isNew
      exact ((disseminates.sent _ otherTc otherMember).2.2 rfl).symm
    · cases isNew
      cases isNew'
      rfl
  · intro first tc second otherTc mem otherMember
    obtain mem | ⟨sends, isNew⟩ := sent mem <;> obtain otherMember | ⟨sends', isNew'⟩ := sent otherMember
    · exact disseminates.close first tc second otherTc mem otherMember
    · cases isNew'
      have before := (disseminates.sent first tc mem).1
      omega
    · cases isNew
      exact sound.2 sends (second, otherTc) otherMember
    · cases isNew
      cases isNew'
      omega
  · intro tuple isStored
    obtain ⟨tc, mem, ansn, listed, processed⟩ := disseminates.stored tuple isStored
    refine ⟨tc, ?_, ansn, listed, processed⟩
    rw [Dissemination.afterSender]
    split
    · exact mem_append_left _ mem
    · exact mem

theorem receiver (disseminates : Disseminates state) (step : protocol.Step state.receiver action next)
    (other : ¬action.IsTcOf state.originator) : Disseminates { state with receiver := next } where
  ansn := disseminates.ansn
  sent := disseminates.sent
  agree := disseminates.agree
  close := disseminates.close
  stored tuple isStored :=
    disseminates.stored tuple ⟨noNewTopology_step step other tuple isStored.1 isStored.2, isStored.2⟩

/-- A delivery that `ProcessTc` does not discard at once does what `ProcessTc` does. -/
theorem delivered (step : protocol.Step state.receiver (.receive time receiverIface senderIface header) next)
    (message : header.message = .tc tc) :
    state.processes time senderIface header = false ∧ next.state.topologySet = state.receiver.state.topologySet ∨
      state.processes time senderIface header = true ∧
        next.state.topologySet = ((state.receiver.passTo time).processTc header tc senderIface).state.topologySet := by
  obtain ⟨mayPass, received⟩ := step
  rw [Dissemination.processes]
  obtain ⟨unread, same⟩ | ⟨reads, processed, isProcessed, same⟩ := recvMessage_forwards received
  · have unread : state.receiver.processes header = false := unread
    exact .inl ⟨by simp [unread], same.topologySet⟩
  · have reads : state.receiver.processes header = true := reads
    rw [processMessage, message] at isProcessed
    cases isProcessed
    cases symmetric : state.receiver.state.findSymLinkTuple senderIface time with
    | none =>
      left
      have absent : (state.receiver.passTo time).state.findSymLinkTuple senderIface
        (state.receiver.passTo time).now = none :=
        symmetric
      rw [same.topologySet, processTc, absent]
      exact ⟨by simp, rfl⟩
    | some link => exact .inr ⟨by simp [reads], same.topologySet⟩

/-- What a delivery does to what is stored: nothing, where the message is not processed or something
stored has a greater number, and otherwise what is stored are the neighbours that the message lists.
-/
theorem deliver_cases (disseminates : Disseminates state)
    (step : protocol.Step state.receiver (.receive time receiverIface senderIface header) next)
    (originator : header.originatorAddress = state.originator) (message : header.message = .tc tc)
    (sent : (number, tc) ∈ state.sent) :
    next.state.topologySet = state.receiver.state.topologySet ∧
        (state.afterDelivery time senderIface header number tc next).origins = state.origins ∧
        (state.processes time senderIface header -> ∃ tuple, state.IsStored tuple ∧ tc.ansn < tuple.sequenceNumber) ∨
      state.processes time senderIface header ∧ (∀ tuple, state.IsStored tuple -> ¬tc.ansn < tuple.sequenceNumber) ∧
        (∀ tuple ∈ next.state.topologySet, tuple.lastAddr = state.originator ->
          tuple.sequenceNumber = tc.ansn ∧ tuple.destAddr ∈ tc.neighborAddresses) ∧
        (∀ dest ∈ tc.neighborAddresses, (dest, state.originator) ∈ next.state.topologySet.map TopologyTuple.addrs) ∧
        ∀ dest ∈ tc.neighborAddresses,
          (state.afterDelivery time senderIface header number tc next).origins dest = number := by
  rw [Dissemination.afterDelivery]
  obtain ⟨unprocessed, same⟩ | ⟨processed, same⟩ := delivered step message
  · left
    rw [unprocessed]
    exact ⟨same, rfl, fun absurd => Bool.noConfusion absurd⟩
  · rw [processed]
    by_cases newer : ∃ tuple, state.IsStored tuple ∧ tc.ansn < tuple.sequenceNumber
    · left
      obtain ⟨tuple, isStored, isNewer⟩ := newer
      have found : (state.receiver.state.findNewerTopologyTuple state.originator tc.ansn).isSome := by
        rw [OlsrState.findNewerTopologyTuple, find?_isSome]
        exact ⟨tuple, isStored.1, decide_eq_true ⟨isStored.2, isNewer⟩⟩
      obtain ⟨newest, isNewest⟩ := isSome_iff_exists.1 found
      have mem : tuple ∈ (state.receiver.passTo time).state.topologySet := isStored.1
      rw [processTc_of_newer mem (isStored.2.trans originator.symm) isNewer] at same
      rw [isNewest]
      exact ⟨same, rfl, fun _ => ⟨tuple, isStored, isNewer⟩⟩
    · right
      have notNewer : ∀ tuple, state.IsStored tuple -> ¬tc.ansn < tuple.sequenceNumber :=
        fun tuple isStored isNewer => newer ⟨tuple, isStored, isNewer⟩
      have absent : state.receiver.state.findNewerTopologyTuple state.originator tc.ansn = none := by
        rw [OlsrState.findNewerTopologyTuple, find?_eq_none]
        intro tuple mem found
        exact notNewer tuple ⟨mem, (of_decide_eq_true found).1⟩ (of_decide_eq_true found).2
      have symmetric : ((state.receiver.passTo time).state.findSymLinkTuple senderIface
          (state.receiver.passTo time).now).isSome := by
        rw [Dissemination.processes] at processed
        exact (of_decide_eq_true processed).2
      obtain ⟨kept, present⟩ := processTc_of_not_newer symmetric
        fun tuple mem isLast => notNewer tuple ⟨mem, isLast.trans originator⟩
      rw [← same, originator] at kept present
      refine ⟨rfl, notNewer, fun tuple mem isLast => ?_, present, fun dest listed => ?_⟩
      · obtain ⟨isCurrent, listed | old⟩ := kept tuple mem isLast
        · exact ⟨isCurrent, listed⟩
        · obtain ⟨oldTc, oldSent, ansn, listed, -⟩ := disseminates.stored tuple ⟨old, isLast⟩
          have numbers : state.origins tuple.destAddr = number := by
            apply ansnAfter_inj
            · exact ⟨disseminates.close _ oldTc _ tc oldSent sent, disseminates.close _ tc _ oldTc sent oldSent⟩
            · rw [← (disseminates.sent _ oldTc oldSent).2.1, ← (disseminates.sent _ tc sent).2.1, ← ansn, isCurrent]
          rw [numbers] at oldSent
          exact ⟨isCurrent, disseminates.agree number oldTc tc oldSent sent ▸ listed⟩
      · rw [absent]
        exact if_pos listed

theorem afterDelivery (disseminates : Disseminates state)
    (step : protocol.Step state.receiver (.receive time receiverIface senderIface header) next)
    (originator : header.originatorAddress = state.originator) (message : header.message = .tc tc)
    (sent : (number, tc) ∈ state.sent) : Disseminates (state.afterDelivery time senderIface header number tc next) := by
  have fields : (state.afterDelivery time senderIface header number tc next).sender = state.sender ∧
      (state.afterDelivery time senderIface header number tc next).changes = state.changes ∧
      (state.afterDelivery time senderIface header number tc next).sent = state.sent ∧
      (state.afterDelivery time senderIface header number tc next).originator = state.originator ∧
      (state.afterDelivery time senderIface header number tc next).receiver = next := by
    rw [Dissemination.afterDelivery]
    split <;> exact ⟨rfl, rfl, rfl, rfl, rfl⟩
  obtain ⟨sender, changes, sameSent, sameOriginator, receiver⟩ := fields
  have processed {other : Nat} (mem : other ∈ state.processed) :
      other ∈ (state.afterDelivery time senderIface header number tc next).processed := by
    rw [Dissemination.afterDelivery]
    split
    · exact mem_append_left _ mem
    · exact mem
  constructor
  · rw [sender, changes]
    exact disseminates.ansn
  · rw [sender, changes, sameSent]
    exact disseminates.sent
  · rw [sameSent]
    exact disseminates.agree
  · rw [sameSent]
    exact disseminates.close
  · rintro tuple ⟨mem, isLast⟩
    rw [receiver] at mem
    rw [sameOriginator] at isLast
    rw [sameSent]
    obtain ⟨same, origins, -⟩ | ⟨processes, -, kept, -, origins⟩ :=
      disseminates.deliver_cases step originator message sent
    · rw [same] at mem
      obtain ⟨tc, isSent, ansn, listed, isProcessed⟩ := disseminates.stored tuple ⟨mem, isLast⟩
      rw [origins]
      exact ⟨tc, isSent, ansn, listed, processed isProcessed⟩
    · obtain ⟨isCurrent, listed⟩ := kept tuple mem isLast
      rw [origins tuple.destAddr listed]
      refine ⟨tc, sent, isCurrent, listed, ?_⟩
      rw [Dissemination.afterDelivery, if_pos processes]
      exact mem_append_right _ (mem_singleton_self number)

theorem age_of_stored (disseminates : Disseminates state) (sent : (number, tc) ∈ state.sent)
    (close : ∀ tuple, state.IsStored tuple ->
      state.origins tuple.destAddr < number + 32768 ∧ number < state.origins tuple.destAddr + 32768)
    (sound : ∀ tuple, state.IsStored tuple -> (tuple.sequenceNumber < tc.ansn ↔ Precedes tuple.sequenceNumber tc.ansn))
    (tuple : TopologyTuple) (isStored : state.IsStored tuple) :
    (tuple.sequenceNumber < tc.ansn ↔ state.origins tuple.destAddr < number) ∧
      (tuple.sequenceNumber = tc.ansn ↔ state.origins tuple.destAddr = number) := by
  obtain ⟨oldTc, oldSent, ansn, -, -⟩ := disseminates.stored tuple isStored
  have oldNumber := ansn.trans (disseminates.sent _ oldTc oldSent).2.1
  have newNumber := (disseminates.sent _ tc sent).2.1
  rw [sound tuple isStored, oldNumber, newNumber]
  refine ⟨precedes_iff (close tuple isStored), ?_, ?_⟩
  · apply ansnAfter_inj
    exact ⟨disseminates.close _ oldTc _ tc oldSent sent, disseminates.close _ tc _ oldTc sent oldSent⟩
  · exact congrArg ansnAfter

theorem step {state next : Dissemination} {action : DisseminationAction} (disseminates : Disseminates state)
    (sound : state.IsSound action) (step : dissemination.Step state action next) : Disseminates next := by
  cases step with
  | sender step => exact disseminates.afterSender step sound
  | receiver step other => exact disseminates.receiver step other
  | deliver step originator message sent close => exact disseminates.afterDelivery step originator message sent

end Disseminates

/-- Messages with the same sequence number advertise the same neighbours. -/
def Dissemination.Advertises (state : Dissemination) : Prop :=
  ∀ number tc other otherTc, (number, tc) ∈ state.sent -> (other, otherTc) ∈ state.sent -> tc.ansn = otherTc.ansn ->
    ∀ addr, addr ∈ tc.neighborAddresses ↔ addr ∈ otherTc.neighborAddresses

/-- Nothing that was taken from a newer message changes. -/
def Dissemination.KeepsNewer (state next : Dissemination) (number : Nat) : Prop :=
  ∀ tuple, state.IsStored tuple -> number < state.origins tuple.destAddr ->
    next.IsStored tuple ∧ next.origins tuple.destAddr = state.origins tuple.destAddr

/-- What is stored are the neighbours that a message lists. -/
def Dissemination.Holds (state : Dissemination) (tc : Tc) : Prop :=
  ∀ dest, dest ∈ tc.neighborAddresses ↔ ∃ tuple, state.IsStored tuple ∧ tuple.destAddr = dest

/-- In a run whose steps are sound the same number stands for the same neighbours, what is taken
from a newer message is never replaced by an older one, and after the newest message has been
processed what is stored are the neighbours that it lists. -/
theorem disseminates {trace : List (Dissemination × DisseminationAction)} {state : Dissemination}
    (run : dissemination.Run trace state) (sound : ∀ entry ∈ trace, entry.1.IsSound entry.2) :
    state.Advertises ∧
      ∀ time receiverIface senderIface header number tc next,
        dissemination.Step state (.deliver time receiverIface senderIface header number tc) next ->
          state.IsSound (.deliver time receiverIface senderIface header number tc) ->
            state.KeepsNewer next number ∧
              (state.processes time senderIface header ->
                (∀ other ∈ state.processed, other ≤ number) -> next.Holds tc) := by
  have disseminates : Disseminates state :=
    run.guarded Disseminates Dissemination.IsSound (fun _ => Disseminates.initial) Disseminates.step sound
  constructor
  · intro number tc other otherTc member otherMember same addr
    have numbers : number = other := by
      apply ansnAfter_inj
      · exact ⟨disseminates.close _ tc _ otherTc member otherMember,
          disseminates.close _ otherTc _ tc otherMember member⟩
      · rw [← (disseminates.sent _ tc member).2.1, ← (disseminates.sent _ otherTc otherMember).2.1, same]
    rw [disseminates.agree other tc otherTc (numbers ▸ member) otherMember]
  · intro time receiverIface senderIface header number tc next step isSound
    cases step with
    | @deliver _ _ _ _ _ _ next step originator message sent close =>
      have age := disseminates.age_of_stored sent close isSound
      have fields : (state.afterDelivery time senderIface header number tc next).receiver = next ∧
          (state.afterDelivery time senderIface header number tc next).originator = state.originator := by
        rw [Dissemination.afterDelivery]
        split <;> exact ⟨rfl, rfl⟩
      rw [Dissemination.KeepsNewer, Dissemination.Holds]
      simp only [Dissemination.IsStored, fields.1, fields.2]
      obtain ⟨same, origins, newer⟩ | ⟨-, notNewer, kept, present, -⟩ :=
        disseminates.deliver_cases step originator message sent
      · constructor
        · intro tuple isStored isNewer
          rw [same, origins]
          exact ⟨isStored, rfl⟩
        · intro processes newest
          obtain ⟨tuple, isStored, isNewer⟩ := newer processes
          obtain ⟨oldTc, oldSent, -, -, isProcessed⟩ := disseminates.stored tuple isStored
          obtain ⟨older, current⟩ := age tuple isStored
          obtain less | equal := (newest _ isProcessed).lt_or_eq
          · exact absurd isNewer (UInt16.lt_asymm (older.2 less))
          · exact absurd (current.2 equal ▸ isNewer) (UInt16.lt_irrefl _)
      · constructor
        · intro tuple isStored isNewer
          obtain ⟨older, current⟩ := age tuple isStored
          obtain less | equal := UInt16.lt_or_eq_of_le (UInt16.not_lt.1 (notNewer tuple isStored))
          · exact absurd isNewer (older.1 less).le.not_gt
          · exact absurd (current.1 equal) isNewer.ne'
        · intro processes newest dest
          constructor
          · intro listed
            obtain ⟨tuple, member, addrs⟩ := List.mem_map.1 (present dest listed)
            exact ⟨tuple, ⟨member, congrArg Prod.snd addrs⟩, congrArg Prod.fst addrs⟩
          · rintro ⟨tuple, ⟨member, isLast⟩, rfl⟩
            exact (kept tuple member isLast).2

namespace Dissemination

/-- Node `1` sends, and node `4` receives. -/
def started : Dissemination where
  originator := ⟨1⟩
  sender := initialNode ⟨1⟩ [] second
  changes := 0
  sent := []
  receiver := initialNode ⟨4⟩ [] second
  origins _ := 0
  processed := []

theorem initial_started : dissemination.Initial started :=
  ⟨⟨[], second, rfl⟩, ⟨⟨4⟩, [], second, rfl⟩, rfl, rfl, rfl⟩

/-- A HELLO message by which a node selects another. -/
def selects (selector selected : Ipv4Address) : Action :=
  .receive 0 selected selector ⟨7, selector, 1, 0, 1, .hello ⟨0, 3, [⟨10, [selected]⟩]⟩⟩

def selected : Dissemination :=
  started.afterSender (selects ⟨3⟩ ⟨1⟩) ((started.sender.perform (selects ⟨3⟩ ⟨1⟩)).get (by decide +kernel))

def advertised : Dissemination :=
  selected.afterSender (.tcTimer 0 7) ((selected.sender.perform (.tcTimer 0 7)).get (by decide +kernel))

def listening : Dissemination :=
  { advertised with receiver := (advertised.receiver.perform (selects ⟨1⟩ ⟨4⟩)).get (by decide +kernel) }

def someHeader : MessageHeader :=
  ⟨7, ⟨1⟩, 255, 0, 0, .tc ⟨2, [⟨3⟩]⟩⟩

def delivered : Dissemination :=
  listening.afterDelivery 0 ⟨1⟩ someHeader 3 ⟨2, [⟨3⟩]⟩
    ((listening.receiver.perform (.receive 0 ⟨4⟩ ⟨1⟩ someHeader)).get (by decide +kernel))

theorem nothing_stored (tuple : TopologyTuple) : ¬listening.IsStored tuple := by
  have empty : listening.receiver.state.topologySet = [] := by decide +kernel
  rintro ⟨mem, -⟩
  rw [empty] at mem
  cases mem

theorem step_delivered : dissemination.Step listening (.deliver 0 ⟨4⟩ ⟨1⟩ someHeader 3 ⟨2, [⟨3⟩]⟩) delivered := by
  apply DisseminationStep.deliver
  · exact step_of_perform (some_get _).symm
  · rfl
  · rfl
  · decide +kernel
  · exact fun tuple isStored => absurd isStored (nothing_stored tuple)

theorem run_listening : dissemination.Run
    [(started, .sender (selects ⟨3⟩ ⟨1⟩)), (selected, .sender (.tcTimer 0 7)),
      (advertised, .receiver (selects ⟨1⟩ ⟨4⟩))]
    listening := by
  have first : dissemination.Run [(started, .sender (selects ⟨3⟩ ⟨1⟩))] selected :=
    (Transitions.Run.initial initial_started).step (.sender (step_of_perform (some_get _).symm))
  have second : dissemination.Run
    [(started, .sender (selects ⟨3⟩ ⟨1⟩)), (selected, .sender (.tcTimer 0 7))] advertised :=
    first.step (.sender (step_of_perform (some_get _).symm))
  apply second.step
  apply DisseminationStep.receiver
  · exact step_of_perform (some_get _).symm
  · rintro ⟨-, tc, isTc⟩
    cases isTc

/-- The receiver holds what the message that is delivered to it lists. -/
theorem disseminates_delivered : delivered.Holds ⟨2, [⟨3⟩]⟩ := by
  have sound : ∀ entry ∈ [(started, DisseminationAction.sender (selects ⟨3⟩ ⟨1⟩)), (selected, .sender (.tcTimer 0 7)),
      (advertised, .receiver (selects ⟨1⟩ ⟨4⟩))], entry.1.IsSound entry.2 := by
    have unsent : selected.sent = [] := by decide +kernel
    simp [Dissemination.IsSound, LosesSelector, selects, sendsTc, unsent]
  apply ((disseminates run_listening sound).2 _ _ _ _ _ _ _ step_delivered _).2
  · decide +kernel
  · have unprocessed : listening.processed = [] := by decide +kernel
    simp [unprocessed]
  · exact fun tuple isStored => absurd isStored (nothing_stored tuple)

def performSender (state : Dissemination) : DisseminationAction -> Option Dissemination
  | .sender action => (state.sender.perform action).map (state.afterSender action)
  | _ => none

theorem step_of_performSender {state next : Dissemination} {action : DisseminationAction}
    (performed : state.performSender action = some next) : dissemination.Step state action next := by
  cases action with
  | sender action =>
    obtain ⟨sender, isSender, rfl⟩ := map_eq_some_iff.1 performed
    exact .sender (step_of_perform isSender)
  | receiver action => cases performed
  | deliver time receiverIface senderIface header number tc => cases performed

end Dissemination

/-- Node `1`, and what its neighbours `2` and `3` say: both select it, and then `2` no longer hears
it. When its event comes, the selection of `2` is lost while that of `3` is still advertised. -/
def losingActions : List Action :=
  [.receive 0 ⟨1⟩ ⟨2⟩ ⟨0, ⟨2⟩, 1, 0, 1, .hello ⟨0, 3, []⟩⟩, .expire 1000 (.link ⟨2⟩),
    .receive 2000 ⟨1⟩ ⟨2⟩ ⟨7, ⟨2⟩, 1, 0, 2, .hello ⟨0, 3, [⟨10, [⟨1⟩]⟩]⟩⟩,
    .receive 2000 ⟨1⟩ ⟨3⟩ ⟨7, ⟨3⟩, 1, 0, 1, .hello ⟨0, 3, [⟨10, [⟨1⟩]⟩]⟩⟩,
    .tcTimer 2000 7,
    .receive 3000 ⟨1⟩ ⟨2⟩ ⟨7, ⟨2⟩, 1, 0, 3, .hello ⟨0, 3, [⟨3, [⟨1⟩]⟩]⟩⟩,
    .expire 62501000 (.link ⟨2⟩),
    .tcTimer 62501000 7]

/-- Both messages have number `4`, and list the neighbours `2` and `3` and then `3` alone. -/
theorem not_advertises : ∃ trace state, dissemination.Run trace state ∧ ¬state.Advertises := by
  have performed : ((losingActions.map .sender).foldlM Dissemination.performSender Dissemination.started).isSome := by
    decide +kernel
  obtain ⟨final, isFinal⟩ := isSome_iff_exists.1 performed
  have sent : final.sent = [(5, ⟨4, [⟨2⟩, ⟨3⟩]⟩), (5, ⟨4, [⟨3⟩]⟩)] := by
    have evaluated : ((losingActions.map .sender).foldlM Dissemination.performSender Dissemination.started).map
        Dissemination.sent = some [(5, ⟨4, [⟨2⟩, ⟨3⟩]⟩), (5, ⟨4, [⟨3⟩]⟩)] := by
      decide +kernel
    rw [isFinal] at evaluated
    exact some.inj evaluated
  have started : dissemination.Run [] Dissemination.started := .initial Dissemination.initial_started
  obtain ⟨trace, run⟩ := started.perform Dissemination.step_of_performSender isFinal
  refine ⟨trace, final, run, fun advertises => ?_⟩
  have listed := (advertises 5 ⟨4, [⟨2⟩, ⟨3⟩]⟩ 5 ⟨4, [⟨3⟩]⟩ (by simp [sent]) (by simp [sent]) rfl ⟨2⟩).1 mem_cons_self
  revert listed
  decide

end Ns3.Olsr.Protocol
