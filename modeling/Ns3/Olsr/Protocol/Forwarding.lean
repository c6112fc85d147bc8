import Ns3.Olsr.Protocol.Reception

/-!
# Forwarding

What the reception of a message does to the duplicate tuples and to the messages that wait to be
sent: nothing, or what `ForwardDefault` does with a message that it accepts.
-/

namespace Ns3.Olsr.Protocol

open Network Semantics List Option KeyedList

/-- What neither processing a message nor forgetting what has expired changes. -/
structure RoutingProtocol.Keeps (node next : RoutingProtocol) : Prop where
  mainAddress : next.mainAddress = node.mainAddress
  now : next.now = node.now
  duplicateSet : next.state.duplicateSet = node.state.duplicateSet
  queuedMessages : next.queuedMessages = node.queuedMessages

/-- The events of links and of two-hop neighbours. -/
def Expiry.ofNeighborhood : Expiry -> Bool
  | link _ => true
  | twoHopNeighbor _ _ => true
  | _ => false

namespace RoutingProtocol

variable {node middle next : RoutingProtocol} {header : MessageHeader} {receiverIface senderIface : Ipv4Address}

@[refl] theorem Keeps.refl (node : RoutingProtocol) : node.Keeps node :=
  ⟨rfl, rfl, rfl, rfl⟩

theorem Keeps.trans (first : node.Keeps middle) (second : middle.Keeps next) : node.Keeps next :=
  ⟨second.mainAddress.trans first.mainAddress, second.now.trans first.now,
    second.duplicateSet.trans first.duplicateSet, second.queuedMessages.trans first.queuedMessages⟩

/-- What HELLO messages do not change either. -/
structure HelloKeeps (node next : RoutingProtocol) : Prop extends node.Keeps next where
  topologySet : next.state.topologySet = node.state.topologySet
  ifaceAssocSet : next.state.ifaceAssocSet = node.state.ifaceAssocSet

theorem HelloKeeps.refl (node : RoutingProtocol) : node.HelloKeeps node :=
  ⟨.refl node, rfl, rfl⟩

theorem HelloKeeps.trans (first : node.HelloKeeps middle) (second : middle.HelloKeeps next) : node.HelloKeeps next :=
  ⟨first.toKeeps.trans second.toKeeps, second.topologySet.trans first.topologySet,
    second.ifaceAssocSet.trans first.ifaceAssocSet⟩

/-- What only HELLO messages change: the links, the selectors and the number that is advertised with
them. -/
def sensed (node : RoutingProtocol) : List LinkTuple × List MprSelectorTuple × UInt16 :=
  (node.state.linkSet, node.state.mprSelectorSet, node.ansn)

/-- What flooded messages do not change either. -/
structure FloodKeeps (node next : RoutingProtocol) : Prop extends node.Keeps next where
  sensed : next.sensed = node.sensed

theorem FloodKeeps.refl (node : RoutingProtocol) : node.FloodKeeps node :=
  ⟨.refl node, rfl⟩

theorem FloodKeeps.trans (first : node.FloodKeeps middle) (second : middle.FloodKeeps next) : node.FloodKeeps next :=
  ⟨first.toKeeps.trans second.toKeeps, second.sensed.trans first.sensed⟩

section Fold

variable {Item Value : Type} {change : RoutingProtocol -> Item -> RoutingProtocol}

/-- What every round of a loop relates is related by the loop. -/
theorem foldl_related (Related : RoutingProtocol -> RoutingProtocol -> Prop) (refl : ∀ node, Related node node)
    (trans : ∀ {node middle next}, Related node middle -> Related middle next -> Related node next)
    (each : ∀ node item, Related node (change node item)) (items : List Item) (node : RoutingProtocol) :
    Related node (items.foldl change node) := by
  induction items generalizing node with
  | nil => exact refl node
  | cons item items ih => exact trans (each node item) (ih (change node item))

theorem FloodKeeps.foldl
    (each : ∀ (node : RoutingProtocol) item, node.FloodKeeps (change node item)) (items : List Item)
    (node : RoutingProtocol) : node.FloodKeeps (items.foldl change node) :=
  foldl_related FloodKeeps FloodKeeps.refl FloodKeeps.trans each items node

theorem HelloKeeps.foldl
    (each : ∀ (node : RoutingProtocol) item, node.HelloKeeps (change node item)) (items : List Item)
    (node : RoutingProtocol) : node.HelloKeeps (items.foldl change node) :=
  foldl_related HelloKeeps HelloKeeps.refl HelloKeeps.trans each items node

theorem foldl_reads (read : RoutingProtocol -> Value) (each : ∀ node item, read (change node item) = read node)
    (items : List Item) (node : RoutingProtocol) : read (items.foldl change node) = read node := by
  apply foldl_related (fun node next => read next = read node)
  · exact fun node => rfl
  · exact fun first second => second.trans first
  · exact each

end Fold

theorem keeps_linkTupleUpdated (node : RoutingProtocol) (tuple : LinkTuple) (willingness : UInt8) :
    node.HelloKeeps (node.linkTupleUpdated tuple willingness) := by
  rw [linkTupleUpdated]
  split <;> exact ⟨⟨rfl, rfl, rfl, rfl⟩, rfl, rfl⟩

theorem keeps_storeLink (node : RoutingProtocol) (created : Bool) (link : LinkTuple) :
    node.HelloKeeps (node.storeLink created link) := by
  cases created <;> exact ⟨⟨rfl, rfl, rfl, rfl⟩, rfl, rfl⟩

theorem keeps_linkSensed (node : RoutingProtocol) (created : Bool) (sensing : Sensing) (willingness : UInt8) :
    node.HelloKeeps (node.linkSensed created sensing willingness) := by
  have stored := keeps_storeLink node created sensing.link
  have updated : node.HelloKeeps
      (if sensing.updated then (node.storeLink created sensing.link).linkTupleUpdated sensing.link willingness
      else node.storeLink created sensing.link) := by
    split
    · exact stored.trans (keeps_linkTupleUpdated _ sensing.link willingness)
    · exact stored
  rw [linkSensed]
  split
  · exact updated.trans ⟨⟨rfl, rfl, rfl, rfl⟩, rfl, rfl⟩
  · exact updated

variable {hello : Hello} {duplicated : Option DuplicateTuple}

theorem keeps_linkSensing (sensed : node.linkSensing header hello receiverIface senderIface = some next) :
    node.HelloKeeps next := by
  rw [linkSensing] at sensed
  split at sensed
  · obtain ⟨sensing, -, rfl⟩ := map_eq_some_iff.1 sensed
    exact keeps_linkSensed node true sensing hello.willingness
  · obtain ⟨sensing, -, rfl⟩ := map_eq_some_iff.1 sensed
    exact keeps_linkSensed node false sensing hello.willingness

theorem keeps_populateTwoHopAddress (header : MessageHeader) (neighborType : UInt8) (node : RoutingProtocol)
    (addr : Ipv4Address) : node.HelloKeeps (populateTwoHopAddress header neighborType node addr) := by
  rw [populateTwoHopAddress]
  split
  · split
    · exact .refl node
    · split <;> exact ⟨⟨rfl, rfl, rfl, rfl⟩, rfl, rfl⟩
  · split <;> exact ⟨⟨rfl, rfl, rfl, rfl⟩, rfl, rfl⟩

theorem keeps_populateTwoHopNeighborSet (node : RoutingProtocol) (header : MessageHeader) (hello : Hello) :
    node.HelloKeeps (node.populateTwoHopNeighborSet header hello) := by
  apply HelloKeeps.foldl
  intro node link
  rw [populateTwoHopLink]
  split
  · apply HelloKeeps.foldl
    intro node linkMessage
    exact .foldl (keeps_populateTwoHopAddress header linkMessage.neighborType) _ node
  · exact .refl node

theorem keeps_populateMprSelectorAddress (header : MessageHeader) (node : RoutingProtocol) (addr : Ipv4Address) :
    node.HelloKeeps (populateMprSelectorAddress header node addr) := by
  rw [populateMprSelectorAddress]
  split
  · split <;> exact ⟨⟨rfl, rfl, rfl, rfl⟩, rfl, rfl⟩
  · exact .refl node

theorem keeps_populateMprSelectorSet (node : RoutingProtocol) (header : MessageHeader) (hello : Hello) :
    node.HelloKeeps (node.populateMprSelectorSet header hello) := by
  apply HelloKeeps.foldl
  intro node linkMessage
  rw [populateMprSelectorMessage]
  split
  · exact .foldl (keeps_populateMprSelectorAddress header) _ node
  · exact .refl node

theorem keeps_processHello (processed : node.processHello header hello receiverIface senderIface = some next) :
    node.HelloKeeps next := by
  obtain ⟨sensed, isSensed, rfl⟩ := map_eq_some_iff.1 processed
  have populated : sensed.HelloKeeps (sensed.populateNeighborSet header hello) := ⟨⟨rfl, rfl, rfl, rfl⟩, rfl, rfl⟩
  exact (((keeps_linkSensing isSensed).trans populated).trans (keeps_populateTwoHopNeighborSet _ header hello)).trans
    (keeps_populateMprSelectorSet _ header hello)

theorem keeps_processTc (node : RoutingProtocol) (header : MessageHeader) (tc : Tc) (senderIface : Ipv4Address) :
    node.FloodKeeps (node.processTc header tc senderIface) := by
  rw [processTc]
  split
  · exact .refl node
  · split
    · exact .refl node
    · have each (node : RoutingProtocol) (addr : Ipv4Address) :
        node.FloodKeeps (processTcAddress header tc.ansn node addr) := by
        rw [processTcAddress]
        split <;> exact ⟨⟨rfl, rfl, rfl, rfl⟩, rfl⟩
      have erased : node.FloodKeeps
          { node with state := node.state.eraseOlderTopologyTuples header.originatorAddress tc.ansn } :=
        ⟨⟨rfl, rfl, rfl, rfl⟩, rfl⟩
      exact erased.trans (.foldl each tc.neighborAddresses _)

theorem keeps_processMid (node : RoutingProtocol) (header : MessageHeader) (mid : Mid) (senderIface : Ipv4Address) :
    node.FloodKeeps (node.processMid header mid senderIface) := by
  rw [processMid]
  split
  · exact .refl node
  · refine FloodKeeps.trans (.foldl ?_ mid.interfaceAddresses node) ⟨⟨rfl, rfl, rfl, rfl⟩, rfl⟩
    intro node ifaceAddr
    rw [processMidAddress]
    split <;> exact ⟨⟨rfl, rfl, rfl, rfl⟩, rfl⟩

theorem keeps_processHna (node : RoutingProtocol) (header : MessageHeader) (hna : Hna) (senderIface : Ipv4Address) :
    node.FloodKeeps (node.processHna header hna senderIface) := by
  rw [processHna]
  split
  · exact .refl node
  · apply FloodKeeps.foldl
    intro node network
    rw [processHnaAssociation]
    split <;> exact ⟨⟨rfl, rfl, rfl, rfl⟩, rfl⟩

theorem keeps_processMessage (processed : node.processMessage header receiverIface senderIface = some next) :
    node.Keeps next := by
  rw [processMessage] at processed
  split at processed
  · exact (keeps_processHello processed).toKeeps
  · cases processed
    apply (keeps_processTc _ _ _ _).toKeeps
  · cases processed
    apply (keeps_processMid _ _ _ _).toKeeps
  · cases processed
    apply (keeps_processHna _ _ _ _).toKeeps

theorem keeps_linkTupleTimerExpire (node : RoutingProtocol) (neighborIfaceAddr : Ipv4Address) :
    node.HelloKeeps (node.linkTupleTimerExpire neighborIfaceAddr) := by
  have lost (tuple : LinkTuple) : node.HelloKeeps (node.neighborLoss tuple) :=
    (keeps_linkTupleUpdated node tuple defaultWillingness).trans ⟨⟨rfl, rfl, rfl, rfl⟩, rfl, rfl⟩
  rw [linkTupleTimerExpire]
  split
  · exact .refl node
  · split
    · exact ⟨⟨rfl, rfl, rfl, rfl⟩, rfl, rfl⟩
    · split
      · split
        · exact ⟨⟨rfl, rfl, rfl, rfl⟩, rfl, rfl⟩
        · exact (lost _).trans ⟨⟨rfl, rfl, rfl, rfl⟩, rfl, rfl⟩
      · exact ⟨⟨rfl, rfl, rfl, rfl⟩, rfl, rfl⟩

/-- What the event of a tuple that is no link leaves as it is, where it does not schedule itself
again. -/
structure Forgets (expiry : Expiry) (node next : RoutingProtocol) : Prop where
  events : next.events = node.events
  mainAddress : next.mainAddress = node.mainAddress
  now : next.now = node.now
  queuedMessages : next.queuedMessages = node.queuedMessages
  linkSet : next.state.linkSet = node.state.linkSet
  neighborSet : next.state.neighborSet = node.state.neighborSet
  topologySet : next.state.topologySet ⊆ node.state.topologySet
  sensed : next.sensed = node.sensed ∨ next.ansn = node.ansn + 1
  duplicateSet : (∀ addr sequenceNumber, expiry ≠ .duplicate addr sequenceNumber) ->
    next.state.duplicateSet = node.state.duplicateSet
  twoHopNeighborSet : expiry.ofNeighborhood = false -> next.state.twoHopNeighborSet = node.state.twoHopNeighborSet
  ifaceAssocSet : (∀ ifaceAddr, expiry ≠ .ifaceAssoc ifaceAddr) -> next.state.ifaceAssocSet = node.state.ifaceAssocSet

theorem Forgets.refl (expiry : Expiry) (node : RoutingProtocol) : Forgets expiry node node :=
  ⟨rfl, rfl, rfl, rfl, rfl, rfl, Subset.refl _, .inl rfl, fun _ => rfl, fun _ => rfl, fun _ => rfl⟩

theorem Forgets.expireAt {expiry : Expiry} {removed : RoutingProtocol} (forgets : Forgets expiry node removed)
    (expirationTime : Int) : (∃ delay, node.expireAt expirationTime expiry removed = node.schedule delay expiry) ∨
      Forgets expiry node (node.expireAt expirationTime expiry removed) := by
  rw [RoutingProtocol.expireAt]
  split
  · exact .inr forgets
  · exact .inl ⟨_, rfl⟩

/-- What an event does. -/
theorem expire_cases (node : RoutingProtocol) (expiry : Expiry) : (∃ ifaceAddr, expiry = .link ifaceAddr) ∨
    (∃ delay, node.expire expiry = node.schedule delay expiry) ∨ Forgets expiry node (node.expire expiry) := by
  have unchanged := Forgets.refl expiry node
  cases expiry with
  | link ifaceAddr => exact .inl ⟨ifaceAddr, rfl⟩
  | duplicate addr sequenceNumber =>
    rw [expire, dupTupleTimerExpire]
    split
    · exact .inr (.inr unchanged)
    · refine .inr (Forgets.expireAt ?_ _)
      exact { unchanged with duplicateSet := fun other => absurd rfl (other _ _) }
  | twoHopNeighbor neighborMainAddr twoHopNeighborAddr =>
    rw [expire, nb2hopTupleTimerExpire]
    split
    · exact .inr (.inr unchanged)
    · refine .inr (Forgets.expireAt ?_ _)
      exact { unchanged with twoHopNeighborSet := fun other => by cases other }
  | mprSelector mainAddr =>
    rw [expire, mprSelTupleTimerExpire]
    split
    · exact .inr (.inr unchanged)
    · refine .inr (Forgets.expireAt ?_ _)
      exact { unchanged with sensed := .inr rfl }
  | topology destAddr lastAddr =>
    rw [expire, topologyTupleTimerExpire]
    split
    · exact .inr (.inr unchanged)
    · refine .inr (Forgets.expireAt ?_ _)
      exact { unchanged with topologySet := eraseP_subset }
  | ifaceAssoc ifaceAddr =>
    rw [expire, ifaceAssocTupleTimerExpire]
    split
    · exact .inr (.inr unchanged)
    · refine .inr (Forgets.expireAt ?_ _)
      exact { unchanged with ifaceAssocSet := fun other => absurd rfl (other _) }
  | association gatewayAddr network =>
    rw [expire, associationTupleTimerExpire]
    split
    · exact .inr (.inr unchanged)
    · refine .inr (Forgets.expireAt ?_ _)
      exact { unchanged with }

theorem keeps_expire (node : RoutingProtocol) {expiry : Expiry}
    (other : ∀ addr sequenceNumber, expiry ≠ .duplicate addr sequenceNumber) : node.Keeps (node.expire expiry) := by
  obtain ⟨ifaceAddr, rfl⟩ | ⟨delay, same⟩ | forgets := node.expire_cases expiry
  · exact (keeps_linkTupleTimerExpire node ifaceAddr).toKeeps
  · rw [same]
    exact ⟨rfl, rfl, rfl, rfl⟩
  · exact ⟨forgets.mainAddress, forgets.now, forgets.duplicateSet other, forgets.queuedMessages⟩

/-- What `ForwardDefault` leaves in the set of duplicate tuples for a message that it accepts. -/
structure Records (node next : RoutingProtocol) (header : MessageHeader) (retransmitted : Bool) : Prop where
  recorded : ∃ tuple, KeyedList.lookup DuplicateTuple.id header.id next.state.duplicateSet = some tuple ∧
    tuple.expirationTime = node.now + dupHoldTime ∧ tuple.retransmitted = retransmitted
  others : ∀ id, id ≠ header.id -> KeyedList.lookup DuplicateTuple.id id next.state.duplicateSet =
    KeyedList.lookup DuplicateTuple.id id node.state.duplicateSet
  unique : (node.state.duplicateSet.map DuplicateTuple.id).Nodup ->
    (next.state.duplicateSet.map DuplicateTuple.id).Nodup
  changed : next.state.duplicateSet ≠ node.state.duplicateSet

theorem records_of_some {duplicated : DuplicateTuple}
    (found : lookup DuplicateTuple.id header.id node.state.duplicateSet = some duplicated)
    (localIface : Ipv4Address) (retransmitted : Bool) :
    node.Records (node.recordDuplicate header (some duplicated) localIface retransmitted) header retransmitted := by
  let change (tuple : DuplicateTuple) : DuplicateTuple :=
    { tuple with
      expirationTime := node.now + dupHoldTime
      retransmitted := retransmitted
      ifaceList := tuple.ifaceList ++ [localIface] }
  have keeps (tuple : DuplicateTuple) (isId : tuple.id = header.id) : (change tuple).id = header.id := isId
  have recorded := lookup_modify_self keeps node.state.duplicateSet
  rw [found, map_some] at recorded
  constructor
  · exact ⟨change duplicated, recorded, rfl, rfl⟩
  · intro id ne
    exact lookup_modify_of_ne keeps ne node.state.duplicateSet
  · intro unique
    have ids := map_keyOf_modify keeps node.state.duplicateSet
    exact ids ▸ unique
  · intro same
    have unchanged := (congrArg (lookup DuplicateTuple.id header.id) same).symm.trans recorded
    have lists := congrArg DuplicateTuple.ifaceList (some.inj (found.symm.trans unchanged))
    simp [change] at lists

theorem records_of_none (absent : lookup DuplicateTuple.id header.id node.state.duplicateSet = none)
    (localIface : Ipv4Address) (retransmitted : Bool) :
    node.Records (node.recordDuplicate header none localIface retransmitted) header retransmitted := by
  constructor
  · exact ⟨_, (lookup_append_of_none absent _).trans (lookup_cons.trans (if_pos rfl)), rfl, rfl⟩
  · intro id ne
    exact lookup_append_singleton_of_ne fun same => ne same.symm
  · intro unique
    rw [lookup_eq_none_iff_keys] at absent
    rw [recordDuplicate, schedule, OlsrState.insertDuplicateTuple, map_append]
    apply List.Nodup.append unique (nodup_singleton _)
    exact disjoint_singleton.2 absent
  · intro same
    have lengths := congrArg List.length same
    simp [recordDuplicate, schedule, OlsrState.insertDuplicateTuple] at lengths

theorem records_recordDuplicate (node : RoutingProtocol)
    (found : lookup DuplicateTuple.id header.id node.state.duplicateSet = duplicated) (localIface : Ipv4Address)
    (retransmitted : Bool) :
    node.Records (node.recordDuplicate header duplicated localIface retransmitted) header retransmitted := by
  cases duplicated with
  | none => exact records_of_none found localIface retransmitted
  | some duplicated => exact records_of_some found localIface retransmitted

/-- What a node does with a message that it accepts. -/
structure Accepts (node next : RoutingProtocol) (header : MessageHeader) (senderIface : Ipv4Address)
    (retransmitted : Bool) : Prop where
  notHello : header.message.isHello = false
  now : next.now = node.now
  records : node.Records next header retransmitted
  notYet : ∀ tuple, KeyedList.lookup DuplicateTuple.id header.id node.state.duplicateSet = some tuple ->
    tuple.retransmitted = false
  queued : next.queuedMessages = node.queuedMessages ++ if retransmitted then [relayed header] else []
  symmetric : (next.state.findSymLinkTuple senderIface next.now).isSome
  due : retransmitted = true ->
    1 < header.timeToLive ∧ (next.state.findMprSelectorTuple (next.getMainAddress senderIface)).isSome

theorem Accepts.of_keeps {retransmitted : Bool} (keeps : node.Keeps middle)
    (accepts : middle.Accepts next header senderIface retransmitted) :
    node.Accepts next header senderIface retransmitted where
  notHello := accepts.notHello
  now := accepts.now.trans keeps.now
  records := {
    recorded := by
      obtain ⟨tuple, found, expires, isRetransmitted⟩ := accepts.records.recorded
      exact ⟨tuple, found, keeps.now ▸ expires, isRetransmitted⟩
    others := by
      rw [← keeps.duplicateSet]
      exact accepts.records.others
    unique := by
      rw [← keeps.duplicateSet]
      exact accepts.records.unique
    changed := by
      rw [← keeps.duplicateSet]
      exact accepts.records.changed }
  notYet := by
    rw [← keeps.duplicateSet]
    exact accepts.notYet
  queued := by
    rw [← keeps.queuedMessages]
    exact accepts.queued
  symmetric := accepts.symmetric
  due := accepts.due

section

variable (notHello : header.message.isHello = false)
include notHello

theorem accepts_forwardDefault
    (found : lookup DuplicateTuple.id header.id node.state.duplicateSet = duplicated) (localIface : Ipv4Address)
    (accepted : node.isAccepted duplicated senderIface = true) :
    ∃ retransmitted,
      node.Accepts (node.forwardDefault header duplicated localIface senderIface) header senderIface retransmitted := by
  obtain ⟨symmetric, pending⟩ := of_decide_eq_true accepted
  have notYet (tuple : DuplicateTuple)
      (isFound : lookup DuplicateTuple.id header.id node.state.duplicateSet = some tuple) :
      tuple.retransmitted = false := by
    rw [← found, isFound, any_some, Bool.not_eq_true] at pending
    exact pending
  rw [forwardDefault, if_pos accepted]
  split
  case isTrue due =>
    refine ⟨true, ?_⟩
    have queued := (node.queueMessage (relayed header)).records_recordDuplicate found localIface true
    have records : node.Records ((node.queueMessage (relayed header)).recordDuplicate header duplicated localIface true)
        header true := ⟨queued.recorded, queued.others, queued.unique, queued.changed⟩
    cases duplicated <;> exact ⟨notHello, rfl, records, notYet, rfl, symmetric, fun _ => of_decide_eq_true due⟩
  case isFalse =>
    refine ⟨false, ?_⟩
    have records := node.records_recordDuplicate found localIface false
    cases duplicated <;>
      exact ⟨notHello, rfl, records, notYet, (append_nil _).symm, symmetric, fun absurd => Bool.noConfusion absurd⟩

/-- Whether the content of a message is processed. -/
def processes (node : RoutingProtocol) (header : MessageHeader) : Bool :=
  ¬node.isDropped header ∧
    (node.state.findDuplicateTuple header.originatorAddress header.messageSequenceNumber).isNone

/-- A message of a type that is flooded changes nothing unless it comes from a symmetric link. -/
theorem processMessage_of_isNone
    (absent : node.state.findSymLinkTuple senderIface node.now = none) :
    node.processMessage header receiverIface senderIface = some node := by
  rw [processMessage]
  split
  case h_1 isHello =>
    rw [isHello] at notHello
    cases notHello
  case h_2 => rw [processTc, absent]
  case h_3 => rw [processMid, absent]
  case h_4 => rw [processHna, absent]

theorem sensed_processMessage
    (processed : node.processMessage header receiverIface senderIface = some next) : next.sensed = node.sensed := by
  rw [processMessage] at processed
  split at processed
  case h_1 isHello =>
    rw [isHello] at notHello
    cases notHello
  case h_2 tc _ =>
    cases processed
    exact (keeps_processTc node header tc senderIface).sensed
  case h_3 mid _ =>
    cases processed
    exact (keeps_processMid node header mid senderIface).sensed
  case h_4 hna _ =>
    cases processed
    exact (keeps_processHna node header hna senderIface).sensed

end

theorem recvMessage_cases (received : node.recvMessage header receiverIface senderIface = some next) :
    node.Keeps next ∧ (header.message.isHello = false -> next = node) ∨
      ∃ retransmitted, node.Accepts next header senderIface retransmitted := by
  rw [recvMessage] at received
  split at received
  · cases received
    exact .inl ⟨.refl node, fun _ => rfl⟩
  · split at received
    case h_1 absent =>
      obtain ⟨processed, isProcessed, rfl⟩ := map_eq_some_iff.1 received
      have keeps := keeps_processMessage isProcessed
      split
      case isTrue isHello =>
        exact .inl ⟨keeps, fun notHello => absurd isHello (Bool.eq_false_iff.1 notHello)⟩
      case isFalse isHello =>
        have notHello := Bool.eq_false_iff.2 isHello
        have stillAbsent : lookup DuplicateTuple.id header.id processed.state.duplicateSet = none :=
          keeps.duplicateSet ▸ absent
        cases symmetric : node.state.findSymLinkTuple senderIface node.now with
        | none =>
          have unchanged := some.inj (isProcessed.symm.trans (processMessage_of_isNone notHello symmetric))
          have refused : node.isAccepted none senderIface = false := by
            rw [isAccepted, symmetric]
            rfl
          rw [unchanged, forwardDefault, refused]
          exact .inl ⟨.refl node, fun _ => rfl⟩
        | some link =>
          have linkSet : processed.state.linkSet = node.state.linkSet :=
            congrArg Prod.fst (sensed_processMessage notHello isProcessed)
          have accepted : processed.isAccepted none senderIface = true := by
            rw [isAccepted, OlsrState.findSymLinkTuple, OlsrState.findLinkTuple, keeps.now, linkSet]
            exact decide_eq_true ⟨isSome_of_eq_some symmetric, Bool.false_ne_true⟩
          obtain ⟨retransmitted, accepts⟩ := accepts_forwardDefault notHello stillAbsent receiverIface accepted
          exact .inr ⟨retransmitted, accepts.of_keeps keeps⟩
    case h_2 duplicated found =>
      split at received
      case isTrue =>
        cases received
        exact .inl ⟨.refl node, fun _ => rfl⟩
      case isFalse considered =>
        cases received
        have notHello : header.message.isHello = false := by
          rw [← Bool.not_eq_true]
          exact fun isHello => considered (.inr isHello)
        cases accepted : node.isAccepted (some duplicated) senderIface with
        | false =>
          rw [forwardDefault, accepted]
          exact .inl ⟨.refl node, fun _ => rfl⟩
        | true => exact .inr (accepts_forwardDefault notHello found receiverIface accepted)

end RoutingProtocol

end Ns3.Olsr.Protocol
