import Ns3.Olsr.Protocol.Forwarding

/-!
# Default flooding

A duplicate tuple outlives the last copy that was accepted by `OLSR_DUP_HOLD_TIME`, and while it is
there a message is neither processed nor sent on again. HELLO messages are not flooded: they leave
no duplicate tuple and are read wherever they arrive.
-/

namespace Ns3.Olsr.Protocol

open Network Semantics Function RoutingProtocol

/-- What has been done with the copies of a message since the first that was accepted. -/
structure Window where
  lastAccepted : Int
  processed : Nat
  queued : Nat

namespace Window

def isOver (window : Window) (now : Int) : Bool :=
  window.lastAccepted + dupHoldTime < now

/-- What a copy adds: a copy that is accepted when the last window is over begins another. -/
def observe (now : Int) (accepted : Bool) (processed queued : Nat) : Option Window -> Option Window
  | none => if accepted then some ⟨now, processed, queued⟩ else none
  | some window =>
    if window.isOver now then
      if accepted then some ⟨now, processed, queued⟩ else some window
    else some ⟨if accepted then now else window.lastAccepted, window.processed + processed, window.queued + queued⟩

end Window

/-- A node with what an observer counts of each message. -/
structure Monitored where
  node : RoutingProtocol
  windows : Ipv4Address × UInt16 -> Option Window

/-- A copy is accepted where it leaves its mark in the set of duplicate tuples. -/
def observeCopy (node next : RoutingProtocol) (header : MessageHeader) (window : Option Window) : Option Window :=
  Window.observe next.now (next.state.duplicateSet ≠ node.state.duplicateSet) (if node.processes header then 1 else 0)
    (next.queuedMessages.length - node.queuedMessages.length)
    window

def Monitored.observe (monitored : Monitored) (next : RoutingProtocol) : Action -> Ipv4Address × UInt16 -> Option Window
  | .receive _ _ _ header =>
    Function.update monitored.windows header.id (observeCopy monitored.node next header (monitored.windows header.id))
  | _ => monitored.windows

/-- The protocol with an observer, who does not take part in it. -/
def monitored : Transitions Monitored Action where
  Initial monitored := protocol.Initial monitored.node ∧ monitored.windows = fun _ => none
  Step monitored action next :=
    protocol.Step monitored.node action next.node ∧ next.windows = monitored.observe next.node action

/-- While a window is not over its duplicate tuple is there, and tells whether the message has been
sent on. -/
structure Flooded (node : RoutingProtocol) (windows : Ipv4Address × UInt16 -> Option Window) : Prop where
  unique : (node.state.duplicateSet.map DuplicateTuple.id).Nodup
  once : ∀ id window, windows id = some window -> window.processed ≤ 1 ∧ window.queued ≤ 1
  covered : ∀ id window, windows id = some window -> window.isOver node.now = false ->
    ∃ tuple, KeyedList.lookup DuplicateTuple.id id node.state.duplicateSet = some tuple ∧
      tuple.expirationTime = window.lastAccepted + dupHoldTime ∧ (tuple.retransmitted = false -> window.queued = 0)

section Flooded

variable {node next : RoutingProtocol} {windows : Ipv4Address × UInt16 -> Option Window} {header : MessageHeader}
  {receiverIface senderIface : Ipv4Address}

variable {window : Window} {retransmitted : Bool}

theorem Window.isOver_mono {now later : Int} (passes : now ≤ later)
    (active : window.isOver later = false) : window.isOver now = false := by
  rw [isOver, decide_eq_false_iff_not] at active ⊢
  omega

section

variable (flooded : Flooded node windows)
include flooded

theorem Flooded.passTo {time : Int} (passes : node.now ≤ time) : Flooded (node.passTo time) windows where
  unique := flooded.unique
  once := flooded.once
  covered id window isWindow active := flooded.covered id window isWindow (Window.isOver_mono passes active)

theorem Flooded.of_duplicateSet (now : next.now = node.now)
    (duplicateSet : next.state.duplicateSet = node.state.duplicateSet) : Flooded next windows where
  unique := by
    rw [duplicateSet]
    exact flooded.unique
  once := flooded.once
  covered := by
    rw [duplicateSet, now]
    exact flooded.covered

theorem Flooded.of_keeps (keeps : node.Keeps next) : Flooded next windows :=
  flooded.of_duplicateSet keeps.now keeps.duplicateSet

/-- A duplicate tuple that is removed has outlived its window. -/
theorem Flooded.dupTupleTimerExpire (addr : Ipv4Address) (sequenceNumber : UInt16) :
    Flooded (node.dupTupleTimerExpire addr sequenceNumber) windows := by
  rw [RoutingProtocol.dupTupleTimerExpire]
  split
  case h_1 => exact flooded
  case h_2 expired found =>
    rw [RoutingProtocol.expireAt]
    split
    case isFalse => exact flooded.of_keeps ⟨rfl, rfl, rfl, rfl⟩
    case isTrue past =>
      constructor
      · exact KeyedList.nodup_remove flooded.unique
      · exact flooded.once
      · intro id window isWindow active
        obtain ⟨tuple, isTuple, expires, notYet⟩ := flooded.covered id window isWindow active
        have ne : id ≠ expired.id := by
          intro same
          have isExpired := KeyedList.keyOf_of_lookup found
          have equal : some tuple = some expired := isTuple.symm.trans (same.trans isExpired ▸ found)
          rw [← Option.some.inj equal, expires] at past
          rw [Window.isOver, decide_eq_false_iff_not] at active
          exact active past
        exact ⟨tuple, (KeyedList.lookup_remove_of_ne ne _).trans isTuple, expires, notYet⟩

theorem Flooded.not_processes (isWindow : windows header.id = some window)
    (active : window.isOver node.now = false) : node.processes header = false := by
  obtain ⟨tuple, isTuple, -, -⟩ := flooded.covered header.id window isWindow active
  have found : node.state.findDuplicateTuple header.originatorAddress header.messageSequenceNumber =
    some tuple := isTuple
  rw [processes, found]
  simp

theorem Flooded.observeCopy_of_keeps (keeps : node.Keeps next) :
    observeCopy node next header (windows header.id) = windows header.id := by
  rw [observeCopy, keeps.duplicateSet, keeps.queuedMessages, keeps.now,
    decide_eq_false (not_not_intro rfl), Nat.sub_self]
  cases isWindow : windows header.id with
  | none => rfl
  | some window =>
    rw [Window.observe]
    cases active : window.isOver node.now with
    | true => rfl
    | false =>
      rw [flooded.not_processes isWindow active]
      rfl

end

theorem observeCopy_of_accepts (accepts : node.Accepts next header senderIface retransmitted)
    (window : Option Window) :
    observeCopy node next header window =
      Window.observe node.now true
        (if node.processes header then 1 else 0) (if retransmitted then 1 else 0) window := by
  rw [observeCopy, accepts.now, accepts.queued, decide_eq_true accepts.records.changed]
  cases retransmitted <;> simp

theorem Flooded.of_accepts (flooded : Flooded node windows)
    (accepts : node.Accepts next header senderIface retransmitted) :
    Flooded next (update windows header.id (observeCopy node next header (windows header.id))) := by
  obtain ⟨recorded, isRecorded, expires, isRetransmitted⟩ := accepts.records.recorded
  have processedOnce : (if node.processes header then 1 else 0) ≤ 1 := by split <;> decide
  have queuedOnce : (if retransmitted then 1 else 0) ≤ 1 := by split <;> decide
  have observed : ∃ window, observeCopy node next header (windows header.id) = some window ∧
      window.lastAccepted = node.now ∧ window.processed ≤ 1 ∧ window.queued = if retransmitted then 1 else 0 := by
    rw [observeCopy_of_accepts accepts]
    cases isWindow : windows header.id with
    | none => exact ⟨_, rfl, rfl, processedOnce, rfl⟩
    | some window =>
      rw [Window.observe]
      cases active : window.isOver node.now with
      | true => exact ⟨_, rfl, rfl, processedOnce, rfl⟩
      | false =>
        obtain ⟨tuple, isTuple, -, notYet⟩ := flooded.covered header.id window isWindow active
        rw [flooded.not_processes isWindow active, notYet (accepts.notYet tuple isTuple), Nat.zero_add]
        exact ⟨_, rfl, rfl, (flooded.once header.id window isWindow).1, rfl⟩
  obtain ⟨window, isWindow, last, processed, queued⟩ := observed
  constructor
  · exact accepts.records.unique flooded.unique
  · intro id other isOther
    by_cases same : id = header.id
    · rw [same, update_self, isWindow] at isOther
      cases isOther
      exact ⟨processed, queued ▸ queuedOnce⟩
    · rw [update_of_ne same] at isOther
      exact flooded.once id other isOther
  · intro id other isOther active
    by_cases same : id = header.id
    · rw [same, update_self, isWindow] at isOther
      cases isOther
      refine ⟨recorded, same ▸ isRecorded, last.symm ▸ expires, fun notRetransmitted => ?_⟩
      rw [queued, ← isRetransmitted, notRetransmitted]
      rfl
    · rw [update_of_ne same] at isOther
      rw [accepts.now] at active
      rw [accepts.records.others id same]
      exact flooded.covered id other isOther active

theorem Flooded.receive (flooded : Flooded node windows)
    (received : node.recvMessage header receiverIface senderIface = some next) :
    Flooded next (update windows header.id (observeCopy node next header (windows header.id))) := by
  obtain ⟨keeps, -⟩ | ⟨retransmitted, accepts⟩ := recvMessage_cases received
  · rw [flooded.observeCopy_of_keeps keeps, update_eq_self]
    exact flooded.of_keeps keeps
  · exact flooded.of_accepts accepts

end Flooded

theorem Flooded.step {state next : Monitored} {action : Action} (flooded : Flooded state.node state.windows)
    (step : monitored.Step state action next) : Flooded next.node next.windows := by
  obtain ⟨step, observed⟩ := step
  rw [observed]
  generalize next.node = after at step
  cases step with
  | receive mayPass received => exact (flooded.passTo mayPass.1).receive received
  | @expire time expiry mayPass scheduled =>
    have passed :
      Flooded ({ state.node with
      events := state.node.events.erase (time, expiry) }.passTo time) state.windows :=
      (flooded.passTo mayPass.1).of_duplicateSet rfl rfl
    by_cases isDuplicate : ∃ addr sequenceNumber, expiry = .duplicate addr sequenceNumber
    · obtain ⟨addr, sequenceNumber, rfl⟩ := isDuplicate
      exact passed.dupTupleTimerExpire addr sequenceNumber
    · apply passed.of_keeps
      apply keeps_expire
      exact fun addr sequenceNumber same => isDuplicate ⟨addr, sequenceNumber, same⟩
  | tcTimer mayPass =>
    apply (flooded.passTo mayPass.1).of_duplicateSet
    · rw [tcTimerExpire]
      split <;> rfl
    · rw [tcTimerExpire]
      split <;> rfl
  | send mayPass other => exact (flooded.passTo mayPass.1).of_duplicateSet rfl rfl
  | sendQueued mayPass => exact (flooded.passTo mayPass.1).of_duplicateSet rfl rfl

theorem Flooded.initial {state : Monitored} (isInitial : monitored.Initial state) :
    Flooded state.node state.windows := by
  obtain ⟨⟨mainAddress, interfaces, helloInterval, isInitial⟩, noWindows⟩ := isInitial
  rw [isInitial, noWindows]
  constructor
  · exact List.nodup_nil
  · intro id window absurd
    cases absurd
  · intro id window absurd
    cases absurd

/-- What the copy that a node sends on owes to the message that it has received. -/
structure Relays (node next : RoutingProtocol) (header copy : MessageHeader) (senderIface : Ipv4Address) : Prop where
  notHello : header.message.isHello = false
  accepted : next.state.duplicateSet ≠ node.state.duplicateSet
  symmetric : (next.state.findSymLinkTuple senderIface next.now).isSome
  selector : (next.state.findMprSelectorTuple (next.getMainAddress senderIface)).isSome
  alive : 1 < header.timeToLive.toNat
  timeToLive : copy.timeToLive.toNat + 1 = header.timeToLive.toNat
  hopCount : copy.hopCount = header.hopCount + 1
  /-- The hop count does not wrap,
    since the two fields of a message never add up to more than when it was first sent. -/
  hopCount_toNat : header.timeToLive.toNat + header.hopCount.toNat ≤ 255 ->
    copy.hopCount.toNat = header.hopCount.toNat + 1
  others : { copy with timeToLive := header.timeToLive, hopCount := header.hopCount } = header

theorem relays_of_accepts {node next : RoutingProtocol} {header : MessageHeader} {senderIface : Ipv4Address}
    (accepts : node.Accepts next header senderIface true) :
    Relays node next header (relayed header) senderIface := by
  obtain ⟨alive, selector⟩ := accepts.due rfl
  have alive : 1 < header.timeToLive.toNat := UInt8.lt_iff_toNat_lt.1 alive
  constructor
  · exact accepts.notHello
  · exact accepts.records.changed
  · exact accepts.symmetric
  · exact selector
  · exact alive
  · rw [relayed, UInt8.toNat_sub_of_le]
    · simp only [UInt8.reduceToNat]
      omega
    · exact UInt8.le_iff_toNat_le.2 alive.le
  · rfl
  · intro sum
    rw [relayed, UInt8.toNat_add]
    simp only [UInt8.reduceToNat]
    omega
  · rfl

/-- From the first copy that a node accepts until the last has been held for long enough, the
message is processed at most once and queued at most once. A reception queues nothing, or the
message itself, with its time to live and its hop count moved on, for a relay that the sender has
selected. A copy that is neither a HELLO message nor accepted changes nothing. -/
theorem flooded_once {trace : List (Monitored × Action)} {state : Monitored} (run : monitored.Run trace state) :
    (∀ id window, state.windows id = some window -> window.processed ≤ 1 ∧ window.queued ≤ 1) ∧
      ∀ time receiverIface senderIface header next,
        protocol.Step state.node (.receive time receiverIface senderIface header) next ->
          (next.queuedMessages = state.node.queuedMessages ∨
            ∃ copy, next.queuedMessages = state.node.queuedMessages ++ [copy] ∧
              Relays state.node next header copy senderIface) ∧
          (header.message.isHello = false -> next.state.duplicateSet = state.node.state.duplicateSet ->
            next = state.node.passTo time) := by
  have flooded : Flooded state.node state.windows :=
    run.invariant (fun state => Flooded state.node state.windows) (fun _ => Flooded.initial) Flooded.step
  refine ⟨flooded.once, ?_⟩
  rintro time receiverIface senderIface header next ⟨mayPass, received⟩
  obtain ⟨keeps, unchanged⟩ | ⟨retransmitted, accepts⟩ := RoutingProtocol.recvMessage_cases received
  · exact ⟨.inl keeps.queuedMessages, fun notHello _ => unchanged notHello⟩
  · refine ⟨?_, fun _ same => absurd same accepts.records.changed⟩
    cases retransmitted with
    | false => exact .inl (accepts.queued.trans (List.append_nil _))
    | true =>
      obtain ⟨notHello, accepted, symmetric, selector, alive, timeToLive, hopCount, hopCount_toNat, others⟩ :=
        relays_of_accepts accepts
      exact .inr ⟨_, accepts.queued, notHello, accepted, symmetric, selector, alive, timeToLive,
        hopCount, hopCount_toNat,
        others⟩

/-- A HELLO message by which node `2` selects node `1`. -/
def selectingHello : MessageHeader :=
  ⟨0, ⟨2⟩, 1, 0, 1, .hello ⟨0, 3, [⟨10, [⟨1⟩]⟩]⟩⟩

def someTc : MessageHeader :=
  ⟨0, ⟨3⟩, 255, 0, 7, .tc ⟨4, [⟨5⟩]⟩⟩

def startedNode : Monitored :=
  ⟨initialNode ⟨1⟩ [] second, fun _ => none⟩

def selectedNode : Monitored :=
  let next := (startedNode.node.recvMessage selectingHello ⟨1⟩ ⟨2⟩).get (by decide +kernel)
  ⟨next, startedNode.observe next (.receive 0 ⟨1⟩ ⟨2⟩ selectingHello)⟩

def relayingNode : Monitored :=
  let next := (selectedNode.node.recvMessage someTc ⟨1⟩ ⟨2⟩).get (by decide +kernel)
  ⟨next, selectedNode.observe next (.receive 0 ⟨1⟩ ⟨2⟩ someTc)⟩

theorem relayingRun : monitored.Run
    [(startedNode, .receive 0 ⟨1⟩ ⟨2⟩ selectingHello), (selectedNode, .receive 0 ⟨1⟩ ⟨2⟩ someTc)] relayingNode := by
  have started : monitored.Run [] startedNode := .initial ⟨⟨_, _, _, rfl⟩, rfl⟩
  have selected : monitored.Run [(startedNode, .receive 0 ⟨1⟩ ⟨2⟩ selectingHello)] selectedNode := by
    apply started.step
    exact ⟨.receive (by decide +kernel) (by decide +kernel), rfl⟩
  apply selected.step
  exact ⟨.receive (by decide +kernel) (by decide +kernel), rfl⟩

/-- The node sends on a TC message that its selector has relayed. -/
theorem flooded_once_relayed : relayingNode.node.queuedMessages.map MessageHeader.timeToLive = [254] ∧
    (relayingNode.windows someTc.id).map Window.queued = some 1 ∧
    ∀ id window, relayingNode.windows id = some window -> window.processed ≤ 1 ∧ window.queued ≤ 1 :=
  ⟨by decide +kernel, by decide +kernel, (flooded_once relayingRun).1⟩

end Ns3.Olsr.Protocol
