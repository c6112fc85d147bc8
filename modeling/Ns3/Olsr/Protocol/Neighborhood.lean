import Ns3.Olsr.Protocol.Forwarding

/-!
# Links, neighbours and their events

The neighbours of a node are derived from its links by hand, and each link and two-hop neighbour is
removed by an event of its own. Here is what the two must agree on, and what the reception of a
HELLO message keeps of it.
-/

namespace Ns3.Olsr.Protocol

open Network Semantics List

namespace RoutingProtocol

variable {node middle next : RoutingProtocol} {header : MessageHeader} {receiverIface senderIface : Ipv4Address}

/-- How many events of a kind are pending. -/
def pending (node : RoutingProtocol) (expiry : Expiry) : Nat :=
  (node.events.map Prod.snd).count expiry

@[simp] theorem pending_schedule (node : RoutingProtocol) (delay : Int) (scheduled expiry : Expiry) :
    (node.schedule delay scheduled).pending expiry = node.pending expiry + if scheduled = expiry then 1 else 0 := by
  simp [pending, schedule, count_singleton]

theorem pending_erase {entry : Int × Expiry} (scheduled : entry ∈ node.events) (expiry : Expiry) :
    node.pending expiry =
      { node with events := node.events.erase entry }.pending expiry + if entry.2 = expiry then 1 else 0 := by
  have perm := ((perm_cons_erase scheduled).map Prod.snd).count_eq expiry
  rw [map_cons, count_cons] at perm
  simpa [pending] using perm

/-- What has not been touched by a step that is not about links and neighbours. -/
structure SameNeighborhood (node next : RoutingProtocol) : Prop where
  linkSet : next.state.linkSet = node.state.linkSet
  neighborSet : next.state.neighborSet = node.state.neighborSet
  twoHopNeighborSet : next.state.twoHopNeighborSet = node.state.twoHopNeighborSet
  ifaceAssocSet : next.state.ifaceAssocSet = node.state.ifaceAssocSet
  pending : ∀ expiry : Expiry, expiry.ofNeighborhood -> next.pending expiry = node.pending expiry

theorem SameNeighborhood.refl (node : RoutingProtocol) : SameNeighborhood node node :=
  ⟨rfl, rfl, rfl, rfl, fun _ _ => rfl⟩

theorem SameNeighborhood.trans (first : SameNeighborhood node middle) (second : SameNeighborhood middle next) :
    SameNeighborhood node next :=
  ⟨second.linkSet.trans first.linkSet, second.neighborSet.trans first.neighborSet,
    second.twoHopNeighborSet.trans first.twoHopNeighborSet, second.ifaceAssocSet.trans first.ifaceAssocSet,
    fun expiry ofNeighborhood => (second.pending expiry ofNeighborhood).trans (first.pending expiry ofNeighborhood)⟩

theorem SameNeighborhood.foldl {Item : Type} {change : RoutingProtocol -> Item -> RoutingProtocol}
    (each : ∀ node item, SameNeighborhood node (change node item)) (items : List Item) (node : RoutingProtocol) :
    SameNeighborhood node (items.foldl change node) :=
  foldl_related SameNeighborhood SameNeighborhood.refl SameNeighborhood.trans each items node

theorem SameNeighborhood.schedule (same : SameNeighborhood node middle) (delay : Int) {scheduled : Expiry}
    (other : scheduled.ofNeighborhood = false) : SameNeighborhood node (middle.schedule delay scheduled) := by
  refine same.trans ⟨rfl, rfl, rfl, rfl, fun expiry ofNeighborhood => ?_⟩
  have ne : scheduled ≠ expiry := by
    rintro rfl
    rw [other] at ofNeighborhood
    cases ofNeighborhood
  rw [pending_schedule, if_neg ne, Nat.add_zero]

theorem sameNeighborhood_populateMprSelectorSet (node : RoutingProtocol) (header : MessageHeader) (hello : Hello) :
    SameNeighborhood node (node.populateMprSelectorSet header hello) := by
  apply SameNeighborhood.foldl
  intro node linkMessage
  rw [populateMprSelectorMessage]
  split
  · apply SameNeighborhood.foldl
    intro node addr
    rw [populateMprSelectorAddress]
    split
    · split
      · refine SameNeighborhood.schedule ?_ _ rfl
        exact ⟨rfl, rfl, rfl, rfl, fun _ _ => rfl⟩
      · exact ⟨rfl, rfl, rfl, rfl, fun _ _ => rfl⟩
    · exact .refl node
  · exact .refl node

theorem sameNeighborhood_processTc (node : RoutingProtocol) (header : MessageHeader) (tc : Tc)
    (senderIface : Ipv4Address) : SameNeighborhood node (node.processTc header tc senderIface) := by
  rw [processTc]
  split
  · exact .refl node
  · split
    · exact .refl node
    · have each (node : RoutingProtocol) (addr : Ipv4Address) :
          SameNeighborhood node (processTcAddress header tc.ansn node addr) := by
        rw [processTcAddress]
        split
        · exact ⟨rfl, rfl, rfl, rfl, fun _ _ => rfl⟩
        · refine SameNeighborhood.schedule ?_ _ rfl
          exact ⟨rfl, rfl, rfl, rfl, fun _ _ => rfl⟩
      have erased : SameNeighborhood node
          { node with state := node.state.eraseOlderTopologyTuples header.originatorAddress tc.ansn } :=
        ⟨rfl, rfl, rfl, rfl, fun _ _ => rfl⟩
      exact erased.trans (.foldl each tc.neighborAddresses _)

theorem sameNeighborhood_processHna (node : RoutingProtocol) (header : MessageHeader) (hna : Hna)
    (senderIface : Ipv4Address) : SameNeighborhood node (node.processHna header hna senderIface) := by
  rw [processHna]
  split
  · exact .refl node
  · apply SameNeighborhood.foldl
    intro node network
    rw [processHnaAssociation]
    split
    · exact ⟨rfl, rfl, rfl, rfl, fun _ _ => rfl⟩
    · refine SameNeighborhood.schedule ?_ _ rfl
      exact ⟨rfl, rfl, rfl, rfl, fun _ _ => rfl⟩

/-- What sending a message on leaves as it is. -/
structure Forwards (node next : RoutingProtocol) : Prop extends SameNeighborhood node next where
  topologySet : next.state.topologySet = node.state.topologySet
  now : next.now = node.now
  sensed : next.sensed = node.sensed

theorem Forwards.refl (node : RoutingProtocol) : Forwards node node :=
  ⟨.refl node, rfl, rfl, rfl⟩

theorem forwards_forwardDefault (node : RoutingProtocol) (header : MessageHeader)
    (duplicated : Option DuplicateTuple) (localIface senderAddress : Ipv4Address) :
    Forwards node (node.forwardDefault header duplicated localIface senderAddress) := by
  rw [forwardDefault]
  split
  · cases duplicated with
    | none =>
      split
      · refine ⟨SameNeighborhood.schedule ?_ _ rfl, rfl, rfl, rfl⟩
        exact ⟨rfl, rfl, rfl, rfl, fun _ _ => rfl⟩
      · refine ⟨SameNeighborhood.schedule ?_ _ rfl, rfl, rfl, rfl⟩
        exact ⟨rfl, rfl, rfl, rfl, fun _ _ => rfl⟩
    | some duplicated => split <;> exact ⟨⟨rfl, rfl, rfl, rfl, fun _ _ => rfl⟩, rfl, rfl, rfl⟩
  · exact .refl node

/-- What a reception does is what processing the message does, if it is processed. -/
theorem recvMessage_forwards (received : node.recvMessage header receiverIface senderIface = some next) :
    node.processes header = false ∧ Forwards node next ∨
      node.processes header = true ∧
        ∃ processed, node.processMessage header receiverIface senderIface = some processed ∧
        Forwards processed next := by
  rw [recvMessage] at received
  rw [processes]
  split at received
  case isTrue dropped =>
    cases received
    exact .inl ⟨by simp [dropped], .refl node⟩
  case isFalse taken =>
    split at received
    case h_1 absent =>
      obtain ⟨processed, isProcessed, rfl⟩ := Option.map_eq_some_iff.1 received
      refine .inr ⟨by simp [taken, absent], processed, isProcessed, ?_⟩
      split
      · exact .refl processed
      · exact forwards_forwardDefault processed header none receiverIface senderIface
    case h_2 duplicated found =>
      left
      refine ⟨by simp [found], ?_⟩
      split at received
      · cases received
        exact .refl node
      · cases received
        exact forwards_forwardDefault node header (some duplicated) receiverIface senderIface

/-- The main address that the neighbour of a link has. -/
def mainAddrOf (node : RoutingProtocol) (link : LinkTuple) : Ipv4Address :=
  node.getMainAddress link.neighborIfaceAddr

/-- The main addresses of the neighbours are those that the links map to, each once, and each link
and two-hop tuple has one event pending. -/
structure Consistent (node : RoutingProtocol) : Prop where
  linksUnique : (node.state.linkSet.map LinkTuple.neighborIfaceAddr).Nodup
  neighborsUnique : (node.state.neighborSet.map NeighborTuple.neighborMainAddr).Nodup
  neighbors : ∀ mainAddr, mainAddr ∈ node.state.neighborSet.map NeighborTuple.neighborMainAddr ↔
    mainAddr ∈ node.state.linkSet.map node.mainAddrOf
  linkEvents : ∀ ifaceAddr, node.pending (.link ifaceAddr) =
    if ifaceAddr ∈ node.state.linkSet.map LinkTuple.neighborIfaceAddr then 1 else 0
  twoHopsUnique : (node.state.twoHopNeighborSet.map TwoHopNeighborTuple.addrs).Nodup
  twoHopEvents : ∀ addrs ∈ node.state.twoHopNeighborSet.map TwoHopNeighborTuple.addrs,
    node.pending (.twoHopNeighbor addrs.1 addrs.2) = 1

theorem getMainAddress_congr (ifaceAssocSet : next.state.ifaceAssocSet = node.state.ifaceAssocSet) :
    next.getMainAddress = node.getMainAddress := by
  ext ifaceAddr
  rw [getMainAddress, getMainAddress, OlsrState.getMainAddress, OlsrState.getMainAddress, OlsrState.findIfaceAssocTuple,
    OlsrState.findIfaceAssocTuple, ifaceAssocSet]

theorem mainAddrOf_congr (ifaceAssocSet : next.state.ifaceAssocSet = node.state.ifaceAssocSet) :
    next.mainAddrOf = node.mainAddrOf := by
  ext link
  rw [mainAddrOf, mainAddrOf, getMainAddress_congr ifaceAssocSet]

theorem Consistent.of_same (consistent : node.Consistent) (same : SameNeighborhood node next) : next.Consistent where
  linksUnique := by
    rw [same.linkSet]
    exact consistent.linksUnique
  neighborsUnique := by
    rw [same.neighborSet]
    exact consistent.neighborsUnique
  neighbors := by
    rw [same.neighborSet, same.linkSet, mainAddrOf_congr same.ifaceAssocSet]
    exact consistent.neighbors
  linkEvents ifaceAddr := by
    rw [same.linkSet, same.pending _ rfl]
    exact consistent.linkEvents ifaceAddr
  twoHopsUnique := by
    rw [same.twoHopNeighborSet]
    exact consistent.twoHopsUnique
  twoHopEvents addrs mem := by
    rw [same.twoHopNeighborSet] at mem
    rw [same.pending _ rfl]
    exact consistent.twoHopEvents addrs mem

end RoutingProtocol

end Ns3.Olsr.Protocol
