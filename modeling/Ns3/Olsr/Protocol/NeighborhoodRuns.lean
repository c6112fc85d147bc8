import Ns3.Olsr.Protocol.MainAddresses

/-!
# Links and neighbours over runs

Links, neighbours and their events agree in every run in which no step comes upon what the node does
not recompute: a neighbour with another link, or another symmetric one; main addresses that change;
and two-hop neighbours that come back while an event for them is pending.
-/

namespace Ns3.Olsr.Protocol

open Network Semantics List KeyedList Protocol.LinkTuple

namespace RoutingProtocol

variable {node next : RoutingProtocol} {header : MessageHeader} {receiverIface senderIface : Ipv4Address}
  {time : Int} {expiry : Expiry}

/-- A node whose event has come, at its time. -/
def fired (node : RoutingProtocol) (time : Int) (expiry : Expiry) : RoutingProtocol :=
  { node with events := node.events.erase (time, expiry) }.passTo time

section

variable (scheduled : (time, expiry) ∈ node.events)
include scheduled

theorem pending_fired (other : Expiry) :
    node.pending other = (node.fired time expiry).pending other + if expiry = other then 1 else 0 :=
  pending_erase scheduled other

/-- An event that is scheduled again has not gone. -/
theorem sameNeighborhood_rescheduled (delay : Int) :
    SameNeighborhood node ((node.fired time expiry).schedule delay expiry) := by
  refine ⟨rfl, rfl, rfl, rfl, fun other _ => ?_⟩
  rw [pending_schedule, ← pending_fired scheduled]

theorem sameNeighborhood_fired (other : expiry.ofNeighborhood = false) :
    SameNeighborhood node (node.fired time expiry) := by
  refine ⟨rfl, rfl, rfl, rfl, fun tracked isTracked => ?_⟩
  have ne : expiry ≠ tracked := by
    rintro rfl
    rw [other] at isTracked
    cases isTracked
  rw [pending_fired scheduled, if_neg ne, Nat.add_zero]

end

section

variable (consistent : node.Consistent)
include consistent

theorem Consistent.of_fewer (linkSet : next.state.linkSet = node.state.linkSet)
    (ifaceAssocSet : next.state.ifaceAssocSet = node.state.ifaceAssocSet)
    (mains : ∀ mainAddr, mainAddr ∈ next.neighborMains ↔ mainAddr ∈ node.neighborMains)
    (unique : next.neighborMains.Nodup)
    (twoHops : next.state.twoHopNeighborSet.Sublist node.state.twoHopNeighborSet)
    (pending : ∀ expiry : Expiry, expiry.ofNeighborhood ->
      next.pending expiry = node.pending expiry) : next.Consistent where
  linksUnique := by
    rw [linkSet]
    exact consistent.linksUnique
  neighborsUnique := unique
  neighbors mainAddr := by
    rw [linkSet, mainAddrOf_congr ifaceAssocSet]
    exact (mains mainAddr).trans (consistent.neighbors mainAddr)
  linkEvents ifaceAddr := by
    rw [linkSet, pending _ rfl]
    exact consistent.linkEvents ifaceAddr
  twoHopsUnique := consistent.twoHopsUnique.sublist (twoHops.map TwoHopNeighborTuple.addrs)
  twoHopEvents addrs mem := by
    rw [pending _ rfl]
    exact consistent.twoHopEvents addrs ((twoHops.map TwoHopNeighborTuple.addrs).subset mem)

/-- Whether a link that is removed is the last to its neighbour. -/
def LastLink (node : RoutingProtocol) (time : Int) (ifaceAddr : Ipv4Address) : Prop :=
  ∀ tuple, node.state.findLinkTuple ifaceAddr = some tuple -> tuple.time < time ->
    ∀ link ∈ node.state.linkSet, node.mainAddrOf link = node.mainAddrOf tuple -> link.neighborIfaceAddr = ifaceAddr

variable {tuple : LinkTuple} {ifaceAddr : Ipv4Address}

section

variable (scheduled : (time, .link ifaceAddr) ∈ node.events)
include scheduled

theorem Consistent.removeLinkTuple (found : node.state.findLinkTuple ifaceAddr = some tuple)
    (last : ∀ link ∈ node.state.linkSet, node.mainAddrOf link = node.mainAddrOf tuple ->
      link.neighborIfaceAddr = ifaceAddr) :
    ((node.fired time (.link ifaceAddr)).removeLinkTuple tuple).Consistent := by
  have isLink := mem_of_lookup found
  have isIface : tuple.neighborIfaceAddr = ifaceAddr := keyOf_of_lookup found
  let removed := (node.fired time (.link ifaceAddr)).removeLinkTuple tuple
  have isRemoved : ∃ link ∈ node.state.linkSet,
      decide (link.localIfaceAddr = tuple.localIfaceAddr ∧ link.neighborIfaceAddr = tuple.neighborIfaceAddr) = true :=
    ⟨tuple, isLink, decide_eq_true ⟨rfl, rfl⟩⟩
  have isKey (link : LinkTuple) (isRemoved : decide (link.localIfaceAddr = tuple.localIfaceAddr ∧
        link.neighborIfaceAddr = tuple.neighborIfaceAddr) = true) : link.neighborIfaceAddr = ifaceAddr :=
    (of_decide_eq_true isRemoved).2.trans isIface
  have links {link : LinkTuple} : link ∈ removed.state.linkSet ↔
      link ∈ node.state.linkSet ∧ link.neighborIfaceAddr ≠ ifaceAddr :=
    mem_eraseP isKey consistent.linksUnique isRemoved
  have isMain : node.mainAddrOf tuple ∈ node.state.neighborSet.map NeighborTuple.neighborMainAddr :=
    (consistent.neighbors _).2 (mem_map_of_mem isLink)
  have mains {mainAddr : Ipv4Address} : mainAddr ∈ removed.neighborMains ↔
      mainAddr ∈ node.neighborMains ∧ mainAddr ≠ node.mainAddrOf tuple :=
    mem_keys_remove consistent.neighborsUnique isMain
  constructor
  · exact consistent.linksUnique.sublist (eraseP_sublist.map neighborIfaceAddr)
  · exact nodup_remove consistent.neighborsUnique
  · intro mainAddr
    refine mains.trans ?_
    rw [neighborMains, consistent.neighbors, mem_map, mem_map]
    constructor
    · rintro ⟨⟨link, mem, rfl⟩, other⟩
      refine ⟨link, links.2 ⟨mem, fun same => other ?_⟩, rfl⟩
      rw [mainAddrOf, mainAddrOf, same, isIface]
    · rintro ⟨link, mem, rfl⟩
      obtain ⟨mem, other⟩ := links.1 mem
      exact ⟨⟨link, mem, rfl⟩, fun same => other (last link mem same)⟩
  · intro other
    have before := (pending_fired scheduled (.link other)).symm.trans (consistent.linkEvents other)
    have keys : other ∈ removed.state.linkSet.map neighborIfaceAddr ↔
        other ∈ node.state.linkSet.map neighborIfaceAddr ∧ other ≠ ifaceAddr :=
      mem_keys_eraseP isKey consistent.linksUnique isRemoved
    change (node.fired time (.link ifaceAddr)).pending (.link other) =
      if other ∈ removed.state.linkSet.map neighborIfaceAddr then 1 else 0
    by_cases same : other = ifaceAddr
    · have present : other ∈ node.state.linkSet.map neighborIfaceAddr :=
        mem_map.2 ⟨tuple, isLink, isIface.trans same.symm⟩
      rw [if_pos present, if_pos (by rw [same])] at before
      rw [if_neg fun mem => (keys.1 mem).2 same]
      omega
    · have ne : Expiry.link ifaceAddr ≠ .link other := by
        intro equal
        injection equal with equal
        exact same equal.symm
      rw [if_neg ne, Nat.add_zero] at before
      rw [before]
      simp only [keys, same, ne_eq, not_false_eq_true, and_true]
  · exact consistent.twoHopsUnique
  · intro addrs mem
    have before := pending_fired scheduled (.twoHopNeighbor addrs.1 addrs.2)
    rw [consistent.twoHopEvents addrs mem] at before
    exact before.symm

theorem Consistent.neighborLoss (isLink : tuple ∈ node.state.linkSet) (delay : Int) :
    (((node.fired time (.link ifaceAddr)).neighborLoss tuple).schedule delay (.link ifaceAddr)).Consistent := by
  have sets := (node.fired time (.link ifaceAddr)).setsNeighbor_linkTupleUpdated tuple defaultWillingness
  have isMain : node.mainAddrOf tuple ∈ node.neighborMains := (consistent.neighbors _).2 (mem_map_of_mem isLink)
  apply consistent.of_fewer
  · exact sets.linkSet
  · exact sets.ifaceAssocSet
  · intro mainAddr
    refine (sets.mains mainAddr).trans ⟨?_, .inl⟩
    rintro (mem | rfl)
    · exact mem
    · exact isMain
  · exact sets.unique consistent.neighborsUnique
  · refine filter_sublist.trans ?_
    rw [sets.twoHopNeighborSet]
    exact List.Sublist.refl _
  · intro expiry _
    rw [pending_schedule, pending_fired scheduled]
    congr 1
    rw [pending, pending, ← sets.events]
    rfl

theorem Consistent.linkTupleTimerExpire (last : node.LastLink time ifaceAddr) :
    ((node.fired time (.link ifaceAddr)).linkTupleTimerExpire ifaceAddr).Consistent := by
  rw [RoutingProtocol.linkTupleTimerExpire]
  split
  case h_1 absent =>
    have notLink : ifaceAddr ∉ node.state.linkSet.map neighborIfaceAddr :=
      lookup_eq_none_iff_keys.1 absent
    have events := consistent.linkEvents ifaceAddr
    rw [if_neg notLink, pending_fired scheduled, if_pos rfl] at events
    omega
  case h_2 tuple found =>
    split
    case isTrue past => exact consistent.removeLinkTuple scheduled found (last tuple found past)
    case isFalse =>
      split
      case isTrue =>
        split
        case isTrue =>
          have rescheduled :=
            sameNeighborhood_rescheduled scheduled
              ((node.fired time (.link ifaceAddr)).delay tuple.time)
          exact consistent.of_same (rescheduled.trans ⟨rfl, rfl, rfl, rfl, fun _ _ => rfl⟩)
        case isFalse => exact consistent.neighborLoss scheduled (mem_of_lookup found) _
      case isFalse => exact consistent.of_same (sameNeighborhood_rescheduled scheduled _)

end

theorem Consistent.nb2hopTupleTimerExpire {neighborMainAddr twoHopNeighborAddr : Ipv4Address}
    (scheduled : (time, .twoHopNeighbor neighborMainAddr twoHopNeighborAddr) ∈ node.events) :
    ((node.fired time (.twoHopNeighbor neighborMainAddr twoHopNeighborAddr)).nb2hopTupleTimerExpire neighborMainAddr
      twoHopNeighborAddr).Consistent := by
  have links (ifaceAddr : Ipv4Address) :
      (node.fired time (.twoHopNeighbor neighborMainAddr twoHopNeighborAddr)).pending (.link ifaceAddr) =
        node.pending (.link ifaceAddr) := (pending_fired scheduled (.link ifaceAddr)).symm
  have others {addrs : Ipv4Address × Ipv4Address} (mem : addrs ∈ node.twoHops)
      (other : addrs ≠ (neighborMainAddr, twoHopNeighborAddr)) :
      (node.fired time (.twoHopNeighbor neighborMainAddr twoHopNeighborAddr)).pending
        (.twoHopNeighbor addrs.1 addrs.2) = 1 := by
    have ne : Expiry.twoHopNeighbor neighborMainAddr twoHopNeighborAddr ≠ .twoHopNeighbor addrs.1 addrs.2 := by
      intro same
      injection same with first second
      exact other (Prod.ext first.symm second.symm)
    have before := pending_fired scheduled (.twoHopNeighbor addrs.1 addrs.2)
    rw [consistent.twoHopEvents addrs mem, if_neg ne] at before
    exact before.symm
  rw [RoutingProtocol.nb2hopTupleTimerExpire]
  split
  case h_1 absent =>
    refine ⟨consistent.linksUnique, consistent.neighborsUnique, consistent.neighbors,
      fun ifaceAddr => (links ifaceAddr).trans (consistent.linkEvents ifaceAddr), consistent.twoHopsUnique,
      fun addrs mem => others mem ?_⟩
    rintro rfl
    exact lookup_eq_none_iff_keys.1 absent mem
  case h_2 tuple found =>
    rw [expireAt]
    split
    case isFalse => exact consistent.of_same (sameNeighborhood_rescheduled scheduled _)
    case isTrue =>
      have isKey : tuple.addrs = (neighborMainAddr, twoHopNeighborAddr) := keyOf_of_lookup found
      have isTuple : tuple.addrs ∈ node.twoHops := mem_map_of_mem (mem_of_lookup found)
      refine ⟨consistent.linksUnique, consistent.neighborsUnique, consistent.neighbors,
        fun ifaceAddr => (links ifaceAddr).trans (consistent.linkEvents ifaceAddr),
        nodup_remove consistent.twoHopsUnique, fun addrs mem => ?_⟩
      obtain ⟨mem, other⟩ := (mem_keys_remove consistent.twoHopsUnique isTuple).1 mem
      exact others mem (isKey ▸ other)

/-- Whether the links to an interface keep their main address when an association of it expires. -/
def AssociationSettled (node : RoutingProtocol) (time : Int) (ifaceAddr : Ipv4Address) : Prop :=
  ∀ tuple, node.state.findIfaceAssocTuple ifaceAddr = some tuple -> tuple.time < time ->
    ifaceAddr ∈ node.state.linkSet.map LinkTuple.neighborIfaceAddr ->
      (node.state.eraseIfaceAssocTuple tuple).getMainAddress ifaceAddr = node.state.getMainAddress ifaceAddr

theorem Consistent.ifaceAssocTupleTimerExpire
    (scheduled : (time, .ifaceAssoc ifaceAddr) ∈ node.events) (settled : node.AssociationSettled time ifaceAddr) :
    ((node.fired time (.ifaceAssoc ifaceAddr)).ifaceAssocTupleTimerExpire ifaceAddr).Consistent := by
  have firedConsistent := consistent.of_same (sameNeighborhood_fired scheduled rfl)
  rw [RoutingProtocol.ifaceAssocTupleTimerExpire]
  split
  case h_1 => exact firedConsistent
  case h_2 tuple found =>
    rw [expireAt]
    split
    case isFalse => exact consistent.of_same (sameNeighborhood_rescheduled scheduled _)
    case isTrue past =>
      let erased : RoutingProtocol :=
        { node.fired time (.ifaceAssoc ifaceAddr) with state := node.state.eraseIfaceAssocTuple tuple }
      have mains : ∀ link ∈ node.state.linkSet, erased.mainAddrOf link = node.mainAddrOf link := by
        intro link isLink
        by_cases same : link.neighborIfaceAddr = ifaceAddr
        · have present : ifaceAddr ∈ node.state.linkSet.map neighborIfaceAddr :=
            mem_map.2 ⟨link, isLink, same⟩
          rw [mainAddrOf, mainAddrOf, same]
          exact settled tuple found past present
        · have other : link.neighborIfaceAddr ≠ tuple.ifaceAddr := by
            rw [keyOf_of_lookup found]
            exact same
          exact getMainAddress_eraseIfaceAssocTuple other rfl
      refine ⟨firedConsistent.linksUnique, firedConsistent.neighborsUnique,
        fun mainAddr => ?_, firedConsistent.linkEvents,
        firedConsistent.twoHopsUnique, firedConsistent.twoHopEvents⟩
      have sameMains : node.state.linkSet.map erased.mainAddrOf = node.state.linkSet.map node.mainAddrOf :=
        map_congr_left mains
      exact (consistent.neighbors mainAddr).trans (sameMains ▸ Iff.rfl)

theorem Consistent.expire (scheduled : (time, expiry) ∈ node.events)
    (last : ∀ ifaceAddr, expiry = .link ifaceAddr -> node.LastLink time ifaceAddr)
    (settled : ∀ ifaceAddr, expiry = .ifaceAssoc ifaceAddr -> node.AssociationSettled time ifaceAddr) :
    ((node.fired time expiry).expire expiry).Consistent := by
  by_cases isIface : ∃ ifaceAddr, expiry = .ifaceAssoc ifaceAddr
  · obtain ⟨ifaceAddr, rfl⟩ := isIface
    exact consistent.ifaceAssocTupleTimerExpire scheduled (settled ifaceAddr rfl)
  obtain ⟨ifaceAddr, rfl⟩ | ⟨delay, same⟩ | forgets := (node.fired time expiry).expire_cases expiry
  · exact consistent.linkTupleTimerExpire scheduled (last ifaceAddr rfl)
  · rw [same]
    exact consistent.of_same (sameNeighborhood_rescheduled scheduled delay)
  · cases other : expiry.ofNeighborhood with
    | false =>
      exact consistent.of_same ((sameNeighborhood_fired scheduled other).trans
        ⟨forgets.linkSet, forgets.neighborSet, forgets.twoHopNeighborSet other,
          forgets.ifaceAssocSet (not_exists.1 isIface), fun _ _ => by rw [pending, pending, forgets.events]⟩)
    | true => cases expiry with
      | link ifaceAddr => exact consistent.linkTupleTimerExpire scheduled (last ifaceAddr rfl)
      | twoHopNeighbor neighborMainAddr twoHopNeighborAddr => exact consistent.nb2hopTupleTimerExpire scheduled
      | _ => cases other

end

/-- Where a link is new, changed or gone, the status of its neighbour is what the links say. -/
def ChangedLinksAgree (node next : RoutingProtocol) : Prop :=
  ∀ link, ¬(link ∈ next.state.linkSet ↔ link ∈ node.state.linkSet) -> next.StatusAgrees (next.mainAddrOf link)

theorem ChangedLinksAgree.of_eq (linkSet : next.state.linkSet = node.state.linkSet) : ChangedLinksAgree node next :=
  fun _ changed => absurd (linkSet ▸ Iff.rfl) changed

theorem Consistent.changedLinksAgree_removeLinkTuple {tuple : LinkTuple} {ifaceAddr : Ipv4Address}
    (consistent : node.Consistent) (found : node.state.findLinkTuple ifaceAddr = some tuple) :
    ChangedLinksAgree node ((node.fired time (.link ifaceAddr)).removeLinkTuple tuple) := by
  have isLink := mem_of_lookup found
  have isMain : node.mainAddrOf tuple ∈ node.neighborMains := (consistent.neighbors _).2 (mem_map_of_mem isLink)
  let removed := (node.fired time (.link ifaceAddr)).removeLinkTuple tuple
  intro link changed
  have isIface : link.neighborIfaceAddr = tuple.neighborIfaceAddr := by
    by_contra other
    apply changed
    have kept : ¬decide (link.localIfaceAddr = tuple.localIfaceAddr ∧
        link.neighborIfaceAddr = tuple.neighborIfaceAddr) =
          true := fun isRemoved => other (of_decide_eq_true isRemoved).2
    exact mem_eraseP_of_neg kept
  intro neighbor isNeighbor same
  have isKept : neighbor.neighborMainAddr ∈ removed.neighborMains := mem_map_of_mem isNeighbor
  have other := ((mem_keys_remove consistent.neighborsUnique isMain).1 isKept).2
  exact absurd (same.trans (congrArg node.getMainAddress isIface)) other

theorem Consistent.changedLinksAgree_expire (consistent : node.Consistent) (time : Int) (expiry : Expiry) :
    ChangedLinksAgree node ((node.fired time expiry).expire expiry) := by
  obtain ⟨ifaceAddr, rfl⟩ | ⟨delay, same⟩ | forgets := (node.fired time expiry).expire_cases expiry
  · rw [RoutingProtocol.expire, RoutingProtocol.linkTupleTimerExpire]
    split
    case h_1 => exact .of_eq rfl
    case h_2 tuple found =>
      split
      case isTrue => exact consistent.changedLinksAgree_removeLinkTuple found
      case isFalse =>
        apply ChangedLinksAgree.of_eq
        split
        · split
          · rfl
          · exact ((node.fired time (.link ifaceAddr)).setsNeighbor_linkTupleUpdated tuple defaultWillingness).linkSet
        · rfl
  · exact .of_eq (same ▸ rfl)
  · exact .of_eq forgets.linkSet

/-- What a message must not come upon when it is processed. -/
structure MessageSettled (header : MessageHeader) (receiverIface senderIface : Ipv4Address) (node : RoutingProtocol) :
    Prop where
  newLink : ∀ hello, header.message = .hello hello -> NewLinkSettled header hello receiverIface senderIface node
  lists : ∀ hello, header.message = .hello hello -> ∀ sensed,
    node.linkSensing header hello receiverIface senderIface = some sensed ->
      ListsSettled header (sensed.listings header hello) node
  mid : ∀ mid, header.message = .mid mid -> (node.state.findSymLinkTuple senderIface node.now).isSome ->
    MidSettled header mid node

theorem Consistent.processMessage (consistent : node.Consistent)
    (settled : MessageSettled header receiverIface senderIface node)
    (processed : node.processMessage header receiverIface senderIface = some next) :
    next.Consistent ∧ ChangedLinksAgree node next := by
  rw [RoutingProtocol.processMessage] at processed
  split at processed
  case h_1 hello isHello =>
    obtain ⟨stays, agrees, others⟩ :=
      processHello_consistent consistent (settled.newLink hello isHello) (settled.lists hello isHello) processed
    refine ⟨stays, fun link changed => ?_⟩
    have isIface : link.neighborIfaceAddr = senderIface := by
      by_contra other
      exact changed (others link other)
    rw [mainAddrOf_congr (keeps_processHello processed).ifaceAssocSet, mainAddrOf, isIface]
    exact agrees
  case h_2 tc isTc =>
    cases processed
    have same := sameNeighborhood_processTc node header tc senderIface
    exact ⟨consistent.of_same same, .of_eq same.linkSet⟩
  case h_3 mid isMid =>
    cases processed
    refine ⟨consistent.processMid (settled.mid mid isMid), .of_eq ?_⟩
    rw [RoutingProtocol.processMid]
    split
    · rfl
    · exact (keepsNeighborhood_processMidAddresses header mid.interfaceAddresses node).linkSet
  case h_4 hna isHna =>
    cases processed
    have same := sameNeighborhood_processHna node header hna senderIface
    exact ⟨consistent.of_same same, .of_eq same.linkSet⟩

theorem Consistent.recvMessage (consistent : node.Consistent)
    (settled : node.processes header = true -> MessageSettled header receiverIface senderIface node)
    (received : node.recvMessage header receiverIface senderIface = some next) :
    next.Consistent ∧ ChangedLinksAgree node next := by
  obtain ⟨-, same⟩ | ⟨processes, processed, isProcessed, same⟩ := recvMessage_forwards received
  · exact ⟨consistent.of_same same.toSameNeighborhood, .of_eq same.linkSet⟩
  · obtain ⟨stays, agrees⟩ := consistent.processMessage (settled processes) isProcessed
    refine ⟨stays.of_same same.toSameNeighborhood, fun link changed => ?_⟩
    rw [same.linkSet] at changed
    rw [mainAddrOf_congr same.ifaceAssocSet]
    exact (agrees link changed).congr same.neighborSet same.linkSet same.ifaceAssocSet same.now

/-- What an action must not come upon. -/
def Settled (node : RoutingProtocol) : Action -> Prop
  | .receive time receiverIface senderIface header =>
    (node.passTo time).processes header = true -> MessageSettled header receiverIface senderIface (node.passTo time)
  | .expire time (.link ifaceAddr) => node.LastLink time ifaceAddr
  | .expire time (.ifaceAssoc ifaceAddr) => node.AssociationSettled time ifaceAddr
  | _ => True

end RoutingProtocol

open RoutingProtocol

variable {trace : List (RoutingProtocol × Action)} {node next : RoutingProtocol} {action : Action}

theorem consistent_step (consistent : node.Consistent) (settled : node.Settled action) (step : Step node action next) :
    next.Consistent ∧ ChangedLinksAgree node next := by
  cases step with
  | @receive time receiverIface senderIface header _ mayPass received =>
    have passed : (node.passTo time).Consistent := consistent.of_same ⟨rfl, rfl, rfl, rfl, fun _ _ => rfl⟩
    exact passed.recvMessage settled received
  | @expire time expiry mayPass scheduled =>
    refine ⟨consistent.expire scheduled ?_ ?_, consistent.changedLinksAgree_expire time expiry⟩
    · rintro ifaceAddr rfl
      exact settled
    · rintro ifaceAddr rfl
      exact settled
  | tcTimer mayPass =>
    rw [tcTimerExpire]
    split <;> exact ⟨consistent.of_same ⟨rfl, rfl, rfl, rfl, fun _ _ => rfl⟩, .of_eq rfl⟩
  | send mayPass other => exact ⟨consistent.of_same ⟨rfl, rfl, rfl, rfl, fun _ _ => rfl⟩, .of_eq rfl⟩
  | sendQueued mayPass => exact ⟨consistent.of_same ⟨rfl, rfl, rfl, rfl, fun _ _ => rfl⟩, .of_eq rfl⟩

theorem consistent_initial (initial : protocol.Initial node) : node.Consistent := by
  obtain ⟨mainAddress, interfaces, helloInterval, rfl⟩ := initial
  refine ⟨nodup_nil, nodup_nil, fun _ => Iff.rfl, fun _ => rfl, nodup_nil, fun addrs mem => ?_⟩
  cases mem

/-- Where every step is settled, the neighbours are those that the links map to, each once, each
link and two-hop tuple has one event pending, and after each step the status of a neighbour whose
links have changed is what the links say. -/
theorem neighborhood_consistent (run : protocol.Run trace node) (settled : ∀ entry ∈ trace, entry.1.Settled entry.2) :
    node.Consistent ∧ ∀ action next, protocol.Step node action next -> node.Settled action ->
      ChangedLinksAgree node next := by
  have consistent : node.Consistent := run.guarded Consistent Settled (fun _ initial => consistent_initial initial)
    (fun consistent settled step => (consistent_step consistent settled step).1) settled
  exact ⟨consistent, fun action next step settledAction => (consistent_step consistent settledAction step).2⟩

/-- A HELLO message of node `2` that lists nobody. -/
def lonelyHello : MessageHeader :=
  ⟨0, ⟨2⟩, 1, 0, 1, .hello ⟨0, 3, []⟩⟩

def hearingNode : RoutingProtocol :=
  ((initialNode ⟨1⟩ [] second).recvMessage lonelyHello ⟨1⟩ ⟨2⟩).get (by decide +kernel)

/-- A node that has heard its first HELLO message. -/
theorem neighborhood_consistent_hearing : hearingNode.state.linkSet.map LinkTuple.neighborIfaceAddr = [⟨2⟩] ∧
    hearingNode.state.neighborSet.map NeighborTuple.neighborMainAddr = [⟨2⟩] ∧ hearingNode.Consistent := by
  have started : protocol.Run [] (initialNode ⟨1⟩ [] second) := .initial ⟨⟨1⟩, [], second, rfl⟩
  have heard : protocol.Run [(initialNode ⟨1⟩ [] second, .receive 0 ⟨1⟩ ⟨2⟩ lonelyHello)] hearingNode := by
    apply started.step
    exact .receive (by decide +kernel) (by decide +kernel)
  refine ⟨by decide +kernel, by decide +kernel, (neighborhood_consistent heard ?_).1⟩
  rintro entry member
  obtain rfl := mem_singleton.1 member
  refine fun _ => ⟨fun hello _ _ _ _ => .inr rfl, ?_, ?_⟩
  · intro hello isHello sensed _
    have noLists : hello.linkMessages = [] := by
      cases isHello
      rfl
    have noListings : sensed.listings lonelyHello hello = [] := by
      simp [listings, Hello.listings, noLists]
    rw [noListings]
    constructor
    · rintro mainAddr - ⟨listing, isListed, -⟩
      cases isListed
    · intro front address back isSplit
      exact absurd isSplit.symm (by simp)
  · intro mid isMid
    cases isMid

/-- Node `1` has links to two interfaces of node `2`, and the link to interface `9` goes. -/
def erasingActions : List Action :=
  [.receive 0 ⟨1⟩ ⟨2⟩ ⟨7, ⟨2⟩, 1, 0, 1, .hello ⟨0, 3, [⟨6, [⟨1⟩]⟩]⟩⟩,
    .receive 0 ⟨1⟩ ⟨2⟩ ⟨7, ⟨2⟩, 255, 0, 2, .mid ⟨[⟨9⟩]⟩⟩,
    .receive 0 ⟨1⟩ ⟨9⟩ ⟨0, ⟨2⟩, 1, 0, 3, .hello ⟨0, 3, []⟩⟩,
    .expire 1000 (.link ⟨9⟩),
    .expire 62501000 (.link ⟨9⟩)]

/-- The neighbour is erased while the link to its interface `2` stays. -/
theorem neighborhood_not_consistent : ∃ trace node, protocol.Run trace node ∧ ¬node.Consistent := by
  have evaluated : (erasingActions.foldlM perform (initialNode ⟨1⟩ [] second)).map
      (fun node => (node.state.linkSet.map node.mainAddrOf, node.neighborMains)) = some ([⟨2⟩], []) := by
    decide +kernel
  obtain ⟨final, isFinal, same⟩ := Option.map_eq_some_iff.1 evaluated
  injection same with links neighbors
  have started : protocol.Run [] (initialNode ⟨1⟩ [] second) := .initial ⟨⟨1⟩, [], second, rfl⟩
  obtain ⟨trace, run⟩ := started.perform step_of_perform isFinal
  refine ⟨trace, final, run, fun consistent => ?_⟩
  have isNeighbor : (⟨2⟩ : Ipv4Address) ∈ final.neighborMains := by
    apply (consistent.neighbors _).2
    rw [links]
    exact mem_singleton_self _
  rw [neighbors] at isNeighbor
  cases isNeighbor

end Ns3.Olsr.Protocol
