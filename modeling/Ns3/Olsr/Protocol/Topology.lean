import Ns3.Olsr.Protocol.Neighborhood

/-!
# The topology set

`ProcessTc` discards a message whose sequence number is less than that of a tuple of its originator,
and otherwise leaves the tuples of that number. Nothing else adds tuples.
-/

namespace Ns3.Olsr.Protocol

open Network Semantics List KeyedList RoutingProtocol

namespace RoutingProtocol

variable {node middle next : RoutingProtocol} {header : MessageHeader}
    {receiverIface senderIface lastAddr : Ipv4Address}

/-- Nothing is learnt of what a node has advertised. -/
def NoNewTopology (lastAddr : Ipv4Address) (node next : RoutingProtocol) : Prop :=
  ∀ tuple ∈ next.state.topologySet, tuple.lastAddr = lastAddr -> tuple ∈ node.state.topologySet

theorem NoNewTopology.of_eq (same : next.state.topologySet = node.state.topologySet) :
    NoNewTopology lastAddr node next :=
  fun _ mem _ => same ▸ mem

theorem NoNewTopology.trans (first : NoNewTopology lastAddr node middle) (second : NoNewTopology lastAddr middle next) :
    NoNewTopology lastAddr node next :=
  fun tuple mem isLast => first tuple (second tuple mem isLast) isLast

theorem noNewTopology_processTcAddress (other : header.originatorAddress ≠ lastAddr) (ansn : UInt16)
    (node : RoutingProtocol)
    (addr : Ipv4Address) : NoNewTopology lastAddr node (processTcAddress header ansn node addr) := by
  intro tuple mem isLast
  rw [processTcAddress] at mem
  split at mem
  case h_1 =>
    obtain mem | ⟨old, -, isKey, rfl⟩ := of_mem_modify mem
    · exact mem
    · exact absurd ((congrArg Prod.snd isKey).symm.trans isLast) other
  case h_2 =>
    obtain mem | mem := mem_append.1 mem
    · exact mem
    · rw [mem_singleton.1 mem] at isLast
      exact absurd isLast other

theorem noNewTopology_processTc (other : header.originatorAddress ≠ lastAddr) (node : RoutingProtocol) (tc : Tc)
    (senderIface : Ipv4Address) : NoNewTopology lastAddr node (node.processTc header tc senderIface) := by
  rw [processTc]
  split
  · exact .of_eq rfl
  · split
    · exact .of_eq rfl
    · have erased : NoNewTopology lastAddr node
          { node with state := node.state.eraseOlderTopologyTuples header.originatorAddress tc.ansn } :=
        fun tuple mem _ => (mem_filter.1 mem).1
      exact erased.trans (foldl_related (NoNewTopology lastAddr) (fun _ => .of_eq rfl) NoNewTopology.trans
        (noNewTopology_processTcAddress other tc.ansn) _ _)

/-- What a TC message leaves of what its originator has advertised, where no tuple has another
number. -/
theorem topologySet_processTcAddress (header : MessageHeader) (ansn : UInt16)
    (node : RoutingProtocol) (addr : Ipv4Address)
    (current : ∀ tuple ∈ node.state.topologySet, tuple.lastAddr = header.originatorAddress ->
      tuple.sequenceNumber = ansn) :
    (∀ tuple ∈ (processTcAddress header ansn node addr).state.topologySet, tuple.lastAddr = header.originatorAddress ->
      tuple.sequenceNumber = ansn ∧ (tuple.destAddr = addr ∨ tuple ∈ node.state.topologySet)) ∧
    ∀ dest, dest = addr ∨ (dest, header.originatorAddress) ∈ node.state.topologySet.map TopologyTuple.addrs ->
      (dest, header.originatorAddress) ∈
        (processTcAddress header ansn node addr).state.topologySet.map TopologyTuple.addrs := by
  rw [processTcAddress]
  split
  case h_1 found isFound =>
    have keeps (tuple : TopologyTuple) (isKey : tuple.addrs = (addr, header.originatorAddress)) :
        { tuple with expirationTime := node.now + header.getVTime }.addrs = (addr, header.originatorAddress) := isKey
    have addrs := map_keyOf_modify keeps node.state.topologySet
    constructor
    · intro tuple mem isLast
      obtain mem | ⟨old, isOld, isKey, rfl⟩ := of_mem_modify mem
      · exact ⟨current tuple mem isLast, .inr mem⟩
      · exact ⟨current old isOld isLast, .inl (congrArg Prod.fst isKey)⟩
    · intro dest present
      rw [OlsrState.modifyTopologyTuple, addrs]
      obtain rfl | present := present
      · have isKey := keyOf_of_lookup isFound
        exact isKey ▸ List.mem_map_of_mem (mem_of_lookup isFound)
      · exact present
  case h_2 =>
    constructor
    · intro tuple mem isLast
      obtain mem | mem := mem_append.1 mem
      · exact ⟨current tuple mem isLast, .inr mem⟩
      · rw [mem_singleton.1 mem]
        exact ⟨rfl, .inl rfl⟩
    · intro dest present
      rw [schedule, OlsrState.insertTopologyTuple, map_append, mem_append]
      obtain rfl | present := present
      · exact .inr (mem_singleton_self _)
      · exact .inl present

theorem topologySet_foldl_processTcAddress (header : MessageHeader) (ansn : UInt16) (addrs : List Ipv4Address)
    (node : RoutingProtocol)
    (current : ∀ tuple ∈ node.state.topologySet, tuple.lastAddr = header.originatorAddress ->
      tuple.sequenceNumber = ansn) :
    (∀ tuple ∈ (addrs.foldl (processTcAddress header ansn) node).state.topologySet,
      tuple.lastAddr = header.originatorAddress ->
        tuple.sequenceNumber = ansn ∧ (tuple.destAddr ∈ addrs ∨ tuple ∈ node.state.topologySet)) ∧
    ∀ dest, dest ∈ addrs ∨ (dest, header.originatorAddress) ∈ node.state.topologySet.map TopologyTuple.addrs ->
      (dest, header.originatorAddress) ∈
        (addrs.foldl (processTcAddress header ansn) node).state.topologySet.map TopologyTuple.addrs := by
  induction addrs generalizing node with
  | nil =>
    constructor
    · exact fun tuple mem isLast => ⟨current tuple mem isLast, .inr mem⟩
    · exact fun dest present => present.resolve_left not_mem_nil
  | cons addr addrs ih =>
    obtain ⟨kept, present⟩ := topologySet_processTcAddress header ansn node addr current
    obtain ⟨kept', present'⟩ := ih (processTcAddress header ansn node addr)
      fun tuple mem isLast => (kept tuple mem isLast).1
    rw [foldl_cons]
    constructor
    · intro tuple mem isLast
      obtain ⟨isCurrent, listed | old⟩ := kept' tuple mem isLast
      · exact ⟨isCurrent, .inl (mem_cons_of_mem addr listed)⟩
      · obtain ⟨-, isAddr | older⟩ := kept tuple old isLast
        · exact ⟨isCurrent, .inl (isAddr ▸ mem_cons_self)⟩
        · exact ⟨isCurrent, .inr older⟩
    · intro dest isPresent
      apply present'
      obtain listed | old := isPresent
      · obtain rfl | listed := mem_cons.1 listed
        · exact .inr (present dest (.inl rfl))
        · exact .inl listed
      · exact .inr (present dest (.inr old))

/-- A TC message is discarded where some tuple of its originator has a greater number. -/
theorem processTc_of_newer {tc : Tc} {tuple : TopologyTuple} (mem : tuple ∈ node.state.topologySet)
    (isLast : tuple.lastAddr = header.originatorAddress) (newer : tc.ansn < tuple.sequenceNumber) :
    node.processTc header tc senderIface = node := by
  have found : (node.state.findNewerTopologyTuple header.originatorAddress tc.ansn).isSome := by
    rw [OlsrState.findNewerTopologyTuple, find?_isSome]
    exact ⟨tuple, mem, decide_eq_true ⟨isLast, newer⟩⟩
  obtain ⟨newest, isNewest⟩ := Option.isSome_iff_exists.1 found
  rw [processTc, isNewest]
  split <;> rfl

theorem processTc_of_not_newer {tc : Tc} (symmetric : (node.state.findSymLinkTuple senderIface node.now).isSome)
    (notNewer : ∀ tuple ∈ node.state.topologySet, tuple.lastAddr = header.originatorAddress ->
      ¬tc.ansn < tuple.sequenceNumber) :
    (∀ tuple ∈ (node.processTc header tc senderIface).state.topologySet, tuple.lastAddr = header.originatorAddress ->
      tuple.sequenceNumber = tc.ansn ∧ (tuple.destAddr ∈ tc.neighborAddresses ∨ tuple ∈ node.state.topologySet)) ∧
    ∀ dest ∈ tc.neighborAddresses, (dest, header.originatorAddress) ∈
      (node.processTc header tc senderIface).state.topologySet.map TopologyTuple.addrs := by
  have absent : node.state.findNewerTopologyTuple header.originatorAddress tc.ansn = none := by
    rw [OlsrState.findNewerTopologyTuple, find?_eq_none]
    intro tuple mem found
    exact notNewer tuple mem (of_decide_eq_true found).1 (of_decide_eq_true found).2
  obtain ⟨link, isLink⟩ := Option.isSome_iff_exists.1 symmetric
  have erased {tuple : TopologyTuple}
      (mem : tuple ∈ (node.state.eraseOlderTopologyTuples header.originatorAddress tc.ansn).topologySet) :
      tuple ∈ node.state.topologySet ∧ ¬(tuple.lastAddr = header.originatorAddress ∧ tuple.sequenceNumber < tc.ansn) :=
    (mem_filter.1 mem).imp_right of_decide_eq_true
  obtain ⟨kept, present⟩ := topologySet_foldl_processTcAddress header tc.ansn tc.neighborAddresses
    { node with state := node.state.eraseOlderTopologyTuples header.originatorAddress tc.ansn } (by
      intro tuple mem isLast
      obtain ⟨old, notOlder⟩ := erased mem
      apply UInt16.le_antisymm
      · exact UInt16.not_lt.1 (notNewer tuple old isLast)
      · exact UInt16.not_lt.1 fun older => notOlder ⟨isLast, older⟩)
  rw [processTc, isLink, absent]
  constructor
  · intro tuple mem isLast
    obtain ⟨isCurrent, listed | old⟩ := kept tuple mem isLast
    · exact ⟨isCurrent, .inl listed⟩
    · exact ⟨isCurrent, .inr (erased old).1⟩
  · exact fun dest listed => present dest (.inl listed)

theorem noNewTopology_processMessage (other : ∀ tc, header.message = .tc tc -> header.originatorAddress ≠ lastAddr)
    (processed : node.processMessage header receiverIface senderIface = some next) :
    NoNewTopology lastAddr node next := by
  cases isMessage : header.message with
  | hello hello =>
    rw [processMessage, isMessage] at processed
    exact .of_eq (keeps_processHello processed).topologySet
  | tc tc =>
    rw [processMessage, isMessage] at processed
    cases processed
    exact noNewTopology_processTc (other tc isMessage) node tc senderIface
  | mid mid =>
    rw [processMessage, isMessage] at processed
    cases processed
    apply NoNewTopology.of_eq
    rw [processMid]
    split
    · rfl
    · refine Eq.trans rfl (foldl_reads (fun node => node.state.topologySet) ?_ mid.interfaceAddresses node)
      intro node ifaceAddr
      rw [processMidAddress]
      split <;> rfl
  | hna hna =>
    rw [processMessage, isMessage] at processed
    cases processed
    apply NoNewTopology.of_eq
    rw [processHna]
    split
    · rfl
    · apply foldl_reads (fun node => node.state.topologySet)
      intro node network
      rw [processHnaAssociation]
      split <;> rfl

theorem noNewTopology_expire (node : RoutingProtocol) (expiry : Expiry) :
    NoNewTopology lastAddr node (node.expire expiry) := by
  obtain ⟨ifaceAddr, rfl⟩ | ⟨delay, same⟩ | forgets := node.expire_cases expiry
  · exact .of_eq (keeps_linkTupleTimerExpire node ifaceAddr).topologySet
  · exact .of_eq (same ▸ rfl)
  · exact fun tuple mem _ => forgets.topologySet mem

end RoutingProtocol

/-- The reception of a TC message of an originator. -/
def Action.IsTcOf (originator : Ipv4Address) : Action -> Prop
  | .receive _ _ _ header => header.originatorAddress = originator ∧ ∃ tc, header.message = .tc tc
  | _ => False

theorem noNewTopology_step {node next : RoutingProtocol} {action : Action} {lastAddr : Ipv4Address}
    (step : protocol.Step node action next) (other : ¬action.IsTcOf lastAddr) :
    RoutingProtocol.NoNewTopology lastAddr node next := by
  cases step with
  | receive mayPass received =>
    obtain ⟨-, forwards⟩ | ⟨-, processed, isProcessed, forwards⟩ := recvMessage_forwards received
    · exact .of_eq forwards.topologySet
    · have others : ∀ tc, _ = Message.tc tc -> _ ≠ lastAddr :=
        fun tc isTc isOriginator => other ⟨isOriginator, tc, isTc⟩
      exact (noNewTopology_processMessage others isProcessed).trans (.of_eq forwards.topologySet)
  | @expire time expiry mayPass scheduled =>
    exact noNewTopology_expire ({ node with events := node.events.erase (time, expiry) }.passTo time) expiry
  | tcTimer mayPass =>
    apply RoutingProtocol.NoNewTopology.of_eq
    rw [tcTimerExpire]
    split <;> rfl
  | send mayPass other => exact .of_eq rfl
  | sendQueued mayPass => exact .of_eq rfl

end Ns3.Olsr.Protocol
