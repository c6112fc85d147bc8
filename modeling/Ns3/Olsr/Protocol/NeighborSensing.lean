import Ns3.Olsr.Protocol.TwoHopNeighbors

/-!
# What a HELLO message keeps

A HELLO message adds a link with its neighbour and its event, or updates a link and the status of
its neighbour, and it adds and removes neighbours of the neighbour.
-/

namespace Ns3.Olsr.Protocol

open Network Semantics List KeyedList RoutingProtocol Protocol.LinkTuple

namespace RoutingProtocol

variable {node middle next : RoutingProtocol} {header : MessageHeader}
    {receiverIface senderIface mainAddr : Ipv4Address}
  {status : NeighborStatus}

def neighborMains (node : RoutingProtocol) : List Ipv4Address :=
  node.state.neighborSet.map NeighborTuple.neighborMainAddr

/-- The neighbour with the main address has been made, or its status has been set. -/
structure SetsNeighbor (mainAddr : Ipv4Address) (status : NeighborStatus) (node next : RoutingProtocol) : Prop where
  linkSet : next.state.linkSet = node.state.linkSet
  twoHopNeighborSet : next.state.twoHopNeighborSet = node.state.twoHopNeighborSet
  ifaceAssocSet : next.state.ifaceAssocSet = node.state.ifaceAssocSet
  events : next.events = node.events
  now : next.now = node.now
  mains : ∀ other, other ∈ next.neighborMains ↔ other ∈ node.neighborMains ∨ other = mainAddr
  unique : node.neighborMains.Nodup -> next.neighborMains.Nodup
  found : ∃ neighbor, next.state.findNeighborTuple mainAddr = some neighbor ∧ neighbor.status = status

theorem SetsNeighbor.trans {other : NeighborStatus} (first : SetsNeighbor mainAddr other node middle)
    (second : SetsNeighbor mainAddr status middle next) : SetsNeighbor mainAddr status node next where
  linkSet := second.linkSet.trans first.linkSet
  twoHopNeighborSet := second.twoHopNeighborSet.trans first.twoHopNeighborSet
  ifaceAssocSet := second.ifaceAssocSet.trans first.ifaceAssocSet
  events := second.events.trans first.events
  now := second.now.trans first.now
  mains addr := by
    rw [second.mains, first.mains, or_assoc, or_self]
  unique := second.unique ∘ first.unique
  found := second.found

theorem setsNeighbor_addNeighborTuple (node : RoutingProtocol) (tuple : NeighborTuple) :
    SetsNeighbor tuple.neighborMainAddr tuple.status node (node.addNeighborTuple tuple) := by
  have keeps (old : NeighborTuple) (_ : old.neighborMainAddr = tuple.neighborMainAddr) :
      tuple.neighborMainAddr = tuple.neighborMainAddr := rfl
  cases isNeighbor : node.state.findNeighborTuple tuple.neighborMainAddr with
  | some old =>
    have neighborSet : (node.addNeighborTuple tuple).state.neighborSet =
        KeyedList.modify NeighborTuple.neighborMainAddr tuple.neighborMainAddr
          (fun _ => tuple) node.state.neighborSet := by
      rw [addNeighborTuple, incrementAnsn, OlsrState.insertNeighborTuple, isNeighbor]
    have mains : (node.addNeighborTuple tuple).neighborMains = node.neighborMains := by
      rw [neighborMains, neighborSet, KeyedList.map_keyOf_modify keeps, neighborMains]
    refine ⟨rfl, rfl, rfl, rfl, rfl, fun other => ?_, fun unique => mains.symm ▸ unique, tuple, ?_, rfl⟩
    · rw [mains, iff_self_or]
      rintro rfl
      exact mem_map.2 ⟨old, KeyedList.mem_of_lookup isNeighbor, KeyedList.keyOf_of_lookup isNeighbor⟩
    · rw [OlsrState.findNeighborTuple, neighborSet, KeyedList.lookup_modify_self keeps]
      exact congrArg (Option.map fun _ => tuple) isNeighbor
  | none =>
    have neighborSet : (node.addNeighborTuple tuple).state.neighborSet = node.state.neighborSet ++ [tuple] := by
      rw [addNeighborTuple, incrementAnsn, OlsrState.insertNeighborTuple, isNeighbor]
    have mains : (node.addNeighborTuple tuple).neighborMains = node.neighborMains ++ [tuple.neighborMainAddr] := by
      rw [neighborMains, neighborSet, map_append, map_singleton, neighborMains]
    refine ⟨rfl, rfl, rfl, rfl, rfl, fun other => ?_, fun unique => ?_, tuple, ?_, rfl⟩
    · rw [mains, mem_append, mem_singleton]
    · rw [mains]
      exact unique.append (nodup_singleton _)
        (disjoint_singleton.2 (KeyedList.lookup_eq_none_iff_keys.1 isNeighbor))
    · rw [OlsrState.findNeighborTuple, neighborSet, KeyedList.lookup_append_of_none isNeighbor, KeyedList.lookup_cons,
        if_pos rfl]

theorem setsNeighbor_linkTupleAdded (node : RoutingProtocol) (link : LinkTuple) (willingness : UInt8) :
    SetsNeighbor (node.mainAddrOf link) (if node.now ≤ link.symTime then .sym else .notSym) node
      (node.linkTupleAdded link willingness) :=
  node.setsNeighbor_addNeighborTuple
    ⟨node.mainAddrOf link, if node.now ≤ link.symTime then .sym else .notSym, willingness⟩

theorem setsNeighbor_updateStatus {old : NeighborTuple}
    (isNeighbor : node.state.findNeighborTuple mainAddr = some old) :
    SetsNeighbor mainAddr (if node.hasSymmetricLink mainAddr then .sym
      else .notSym) node (node.updateStatus mainAddr) := by
  let change (tuple : NeighborTuple) : NeighborTuple :=
    { tuple with status := if node.hasSymmetricLink mainAddr then .sym else .notSym }
  have keeps (tuple : NeighborTuple) (isMain : tuple.neighborMainAddr = mainAddr) :
      (change tuple).neighborMainAddr = mainAddr := isMain
  have mains : (node.updateStatus mainAddr).neighborMains = node.neighborMains :=
    map_keyOf_modify keeps node.state.neighborSet
  refine ⟨rfl, rfl, rfl, rfl, rfl, fun other => ?_, fun unique => mains.symm ▸ unique, change old, ?_, rfl⟩
  · rw [mains, iff_self_or]
    rintro rfl
    exact mem_map.2 ⟨old, mem_of_lookup isNeighbor, keyOf_of_lookup isNeighbor⟩
  · exact (lookup_modify_self keeps node.state.neighborSet).trans (congrArg (Option.map change) isNeighbor)

theorem setsNeighbor_linkTupleUpdated (node : RoutingProtocol) (link : LinkTuple) (willingness : UInt8) :
    SetsNeighbor (node.mainAddrOf link) (if node.hasSymmetricLink (node.mainAddrOf link) then .sym else .notSym) node
      (node.linkTupleUpdated link willingness) := by
  cases isNeighbor : node.state.findNeighborTuple (node.getMainAddress link.neighborIfaceAddr) with
  | some old =>
    rw [linkTupleUpdated, isNeighbor]
    exact setsNeighbor_updateStatus isNeighbor
  | none =>
    rw [linkTupleUpdated, isNeighbor]
    have added := node.setsNeighbor_linkTupleAdded link willingness
    obtain ⟨neighbor, isAdded, -⟩ := added.found
    exact added.trans (setsNeighbor_updateStatus isAdded)

variable {hello : Hello} {sensing : Sensing}

theorem senseLink_spec {link : LinkTuple} {created : Bool}
    (sensed : node.senseLink header hello receiverIface link created = some sensing) :
    sensing.link.neighborIfaceAddr = link.neighborIfaceAddr ∧ (created = false -> sensing.updated = true) := by
  have each {sensing next : Sensing} {linkMessage : LinkMessage}
      (step : node.senseLinkMessage header.getVTime receiverIface sensing linkMessage = some next) :
      next.link.neighborIfaceAddr = sensing.link.neighborIfaceAddr ∧ (sensing.updated -> next.updated) := by
    rw [senseLinkMessage] at step
    split at step
    · cases step
      exact ⟨rfl, id⟩
    · split at step
      · split at step
        · cases step
          exact ⟨rfl, fun _ => rfl⟩
        · split at step
          · cases step
            exact ⟨rfl, fun _ => rfl⟩
          · cases step
      · cases step
        exact ⟨rfl, id⟩
  have all {linkMessages : List LinkMessage} {sensing next : Sensing}
      (steps : linkMessages.foldlM (node.senseLinkMessage header.getVTime receiverIface) sensing = some next) :
      next.link.neighborIfaceAddr = sensing.link.neighborIfaceAddr ∧ (sensing.updated -> next.updated) := by
    induction linkMessages generalizing sensing with
    | nil =>
      cases steps
      exact ⟨rfl, id⟩
    | cons linkMessage linkMessages ih =>
      rw [foldlM_cons] at steps
      obtain ⟨middle, isMiddle, steps⟩ := Option.bind_eq_some_iff.1 steps
      obtain ⟨iface, updated⟩ := each isMiddle
      obtain ⟨iface', updated'⟩ := ih steps
      exact ⟨iface'.trans iface, updated' ∘ updated⟩
  obtain ⟨last, isLast, returned⟩ := Option.bind_eq_some_iff.1 sensed
  obtain ⟨iface, updated⟩ := all isLast
  cases returned
  exact ⟨iface, fun notCreated => updated (by rw [notCreated]; rfl)⟩

theorem map_mainAddrOf (node : RoutingProtocol) (links : List LinkTuple) :
    links.map node.mainAddrOf = (links.map neighborIfaceAddr).map node.getMainAddress := by
  rw [map_map]
  rfl

theorem linkSensed_created (node : RoutingProtocol) (sensing : Sensing) (willingness : UInt8) :
    ∃ added delay, node.linkSensed true sensing willingness =
      added.schedule delay (.link sensing.link.neighborIfaceAddr) ∧
      SetsNeighbor (node.mainAddrOf sensing.link) (if node.now ≤ sensing.link.symTime then .sym else .notSym)
        (node.storeLink true sensing.link) added := by
  let stored := node.storeLink true sensing.link
  let delay := node.delay (min sensing.link.time sensing.link.symTime)
  cases updated : sensing.updated with
  | false =>
    refine ⟨stored.linkTupleAdded sensing.link willingness, delay, ?_,
      stored.setsNeighbor_linkTupleAdded sensing.link willingness⟩
    rw [linkSensed, updated]
    rfl
  | true =>
    have first := stored.setsNeighbor_linkTupleUpdated sensing.link willingness
    have second :=
      (stored.linkTupleUpdated sensing.link willingness).setsNeighbor_linkTupleAdded sensing.link willingness
    rw [mainAddrOf_congr first.ifaceAssocSet, first.now] at second
    refine ⟨(stored.linkTupleUpdated sensing.link willingness).linkTupleAdded sensing.link willingness, delay, ?_,
      first.trans second⟩
    rw [linkSensed, updated]
    rfl

/-- A new link comes with its neighbour and its event. -/
theorem Consistent.linkSensed_created {willingness : UInt8} (consistent : node.Consistent)
    (absent : sensing.link.neighborIfaceAddr ∉ node.state.linkSet.map neighborIfaceAddr) :
    (node.linkSensed true sensing willingness).Consistent := by
  obtain ⟨added, delay, isAdded, sets⟩ := node.linkSensed_created sensing willingness
  have linkSet : added.state.linkSet = node.state.linkSet ++ [sensing.link] := sets.linkSet
  have pending (expiry : Expiry) : added.pending expiry = node.pending expiry := by
    rw [pending, sets.events]
    rfl
  rw [isAdded]
  constructor
  · change (added.state.linkSet.map neighborIfaceAddr).Nodup
    rw [linkSet, map_append]
    exact consistent.linksUnique.append (nodup_singleton _) (disjoint_singleton.2 absent)
  · exact sets.unique consistent.neighborsUnique
  · intro mainAddr
    change mainAddr ∈ added.neighborMains ↔ mainAddr ∈ added.state.linkSet.map added.mainAddrOf
    rw [sets.mains, linkSet, mainAddrOf_congr sets.ifaceAssocSet, map_append, mem_append, map_singleton,
      mem_singleton]
    exact or_congr_left (consistent.neighbors mainAddr)
  · intro ifaceAddr
    change _ = if ifaceAddr ∈ added.state.linkSet.map neighborIfaceAddr then 1 else 0
    rw [pending_schedule, pending, consistent.linkEvents, linkSet, map_append, map_singleton]
    by_cases same : ifaceAddr = sensing.link.neighborIfaceAddr
    · rw [same, if_neg absent, if_pos rfl, if_pos (mem_append_right _ (mem_singleton_self _))]
    · have ne : Expiry.link sensing.link.neighborIfaceAddr ≠ .link ifaceAddr := by
        rintro equal
        cases equal
        exact same rfl
      rw [if_neg ne, Nat.add_zero]
      simp [same]
  · change (added.state.twoHopNeighborSet.map TwoHopNeighborTuple.addrs).Nodup
    rw [sets.twoHopNeighborSet]
    exact consistent.twoHopsUnique
  · intro addrs mem
    change addrs ∈ added.state.twoHopNeighborSet.map TwoHopNeighborTuple.addrs at mem
    rw [sets.twoHopNeighborSet] at mem
    rw [pending_schedule, pending, consistent.twoHopEvents addrs mem]
    rfl

/-- A link that is updated keeps its neighbour and its event, and the status of the neighbour is
what the links say. -/
theorem Consistent.linkSensed_updated (consistent : node.Consistent) (willingness : UInt8)
    (present : sensing.link.neighborIfaceAddr ∈ node.state.linkSet.map neighborIfaceAddr)
    (updated : sensing.updated = true) :
    (node.linkSensed false sensing willingness).Consistent ∧ SetsNeighbor (node.mainAddrOf sensing.link)
        (if (node.storeLink false sensing.link).hasSymmetricLink (node.mainAddrOf sensing.link) then .sym else .notSym)
        (node.storeLink false sensing.link) (node.linkSensed false sensing willingness) := by
  let stored := node.storeLink false sensing.link
  have keeps (old : LinkTuple) (_ : old.neighborIfaceAddr = sensing.link.neighborIfaceAddr) :
      sensing.link.neighborIfaceAddr = sensing.link.neighborIfaceAddr := rfl
  have ifaces : stored.state.linkSet.map neighborIfaceAddr = node.state.linkSet.map neighborIfaceAddr :=
    map_keyOf_modify keeps node.state.linkSet
  have sensed : node.linkSensed false sensing willingness = stored.linkTupleUpdated sensing.link willingness := by
    rw [linkSensed, updated]
    rfl
  have sets : SetsNeighbor (node.mainAddrOf sensing.link)
      (if stored.hasSymmetricLink (node.mainAddrOf sensing.link) then .sym else .notSym) stored
      (stored.linkTupleUpdated sensing.link willingness) :=
        stored.setsNeighbor_linkTupleUpdated sensing.link willingness
  have pending (expiry : Expiry) :
    (stored.linkTupleUpdated sensing.link willingness).pending expiry = node.pending expiry := by
    rw [pending, sets.events]
    rfl
  rw [sensed]
  refine ⟨?_, sets⟩
  constructor
  · rw [sets.linkSet, ifaces]
    exact consistent.linksUnique
  · exact sets.unique consistent.neighborsUnique
  · intro mainAddr
    have isMain : node.mainAddrOf sensing.link ∈ node.neighborMains := by
      apply (consistent.neighbors _).2
      rw [map_mainAddrOf]
      exact mem_map_of_mem present
    change mainAddr ∈ (stored.linkTupleUpdated sensing.link willingness).neighborMains ↔ _
    rw [sets.mains, sets.linkSet, mainAddrOf_congr sets.ifaceAssocSet]
    change mainAddr ∈ node.neighborMains ∨ _ ↔ mainAddr ∈ stored.state.linkSet.map node.mainAddrOf
    rw [map_mainAddrOf, ifaces, ← map_mainAddrOf]
    constructor
    · rintro (mem | rfl)
      · exact (consistent.neighbors mainAddr).1 mem
      · exact (consistent.neighbors _).1 isMain
    · exact fun mem => .inl ((consistent.neighbors mainAddr).2 mem)
  · intro ifaceAddr
    rw [pending, sets.linkSet, ifaces]
    exact consistent.linkEvents ifaceAddr
  · rw [sets.twoHopNeighborSet]
    exact consistent.twoHopsUnique
  · intro addrs mem
    rw [sets.twoHopNeighborSet] at mem
    rw [pending]
    exact consistent.twoHopEvents addrs mem

theorem consistent_populateNeighborSet (consistent : node.Consistent) (header : MessageHeader) (hello : Hello) :
    (node.populateNeighborSet header hello).Consistent := by
  have keeps (tuple : NeighborTuple) (isMain : tuple.neighborMainAddr = header.originatorAddress) :
      { tuple with willingness := hello.willingness }.neighborMainAddr = header.originatorAddress := isMain
  have mains : (node.populateNeighborSet header hello).state.neighborSet.map NeighborTuple.neighborMainAddr =
      node.state.neighborSet.map NeighborTuple.neighborMainAddr :=
    map_keyOf_modify keeps node.state.neighborSet
  refine ⟨consistent.linksUnique, ?_, ?_, consistent.linkEvents, consistent.twoHopsUnique, consistent.twoHopEvents⟩
  · rw [mains]
    exact consistent.neighborsUnique
  · rw [mains]
    exact consistent.neighbors

/-- The status of a neighbour is what the links to it say. -/
def StatusAgrees (node : RoutingProtocol) (mainAddr : Ipv4Address) : Prop :=
  ∀ neighbor ∈ node.state.neighborSet, neighbor.neighborMainAddr = mainAddr ->
    (neighbor.status = .sym ↔ node.hasSymmetricLink mainAddr)

theorem hasSymmetricLink_congr (linkSet : next.state.linkSet = node.state.linkSet)
    (ifaceAssocSet : next.state.ifaceAssocSet = node.state.ifaceAssocSet)
    (now : next.now = node.now) (mainAddr : Ipv4Address) :
    next.hasSymmetricLink mainAddr = node.hasSymmetricLink mainAddr := by
  rw [hasSymmetricLink, hasSymmetricLink, linkSet, now, getMainAddress_congr ifaceAssocSet]

theorem StatusAgrees.congr (agrees : node.StatusAgrees mainAddr)
    (neighborSet : next.state.neighborSet = node.state.neighborSet)
    (linkSet : next.state.linkSet = node.state.linkSet)
    (ifaceAssocSet : next.state.ifaceAssocSet = node.state.ifaceAssocSet)
    (now : next.now = node.now) : next.StatusAgrees mainAddr := by
  rw [StatusAgrees, neighborSet, hasSymmetricLink_congr linkSet ifaceAssocSet now]
  exact agrees

theorem SetsNeighbor.statusAgrees (sets : SetsNeighbor mainAddr status node next)
    (unique : node.neighborMains.Nodup) (isStatus : status = .sym ↔ next.hasSymmetricLink mainAddr) :
    next.StatusAgrees mainAddr := by
  obtain ⟨found, isFound, hasStatus⟩ := sets.found
  rintro neighbor mem rfl
  have same : some neighbor = some found := (lookup_of_mem (sets.unique unique) mem).symm.trans isFound
  rw [Option.some.inj same, hasStatus]
  rw [Option.some.inj same] at isStatus
  exact isStatus

theorem StatusAgrees.populateNeighborSet (agrees : node.StatusAgrees mainAddr)
    (header : MessageHeader) (hello : Hello) :
    (node.populateNeighborSet header hello).StatusAgrees mainAddr := by
  intro neighbor mem isMain
  obtain mem | ⟨old, isOld, -, rfl⟩ := of_mem_modify mem
  · exact agrees neighbor mem isMain
  · exact agrees old isOld isMain

/-- A link that is new is symmetric, or no other link to the same neighbour is. -/
def NewLinkSettled (header : MessageHeader) (hello : Hello) (receiverIface senderIface : Ipv4Address)
    (node : RoutingProtocol) : Prop :=
  node.state.findLinkTuple senderIface = none -> ∀ sensing,
    node.senseLink header hello receiverIface
      (node.newLinkTuple header receiverIface senderIface) true = some sensing ->
      node.now ≤ sensing.link.symTime ∨ node.hasSymmetricLink (node.getMainAddress senderIface) = false

theorem linkSensing_consistent (consistent : node.Consistent)
    (newLinkSettled : NewLinkSettled header hello receiverIface senderIface node)
    (sensed : node.linkSensing header hello receiverIface senderIface = some next) :
    next.Consistent ∧ next.StatusAgrees (node.getMainAddress senderIface) ∧
      (∀ link, link.neighborIfaceAddr ≠ senderIface -> (link ∈ next.state.linkSet ↔ link ∈ node.state.linkSet)) ∧
      next.state.twoHopNeighborSet = node.state.twoHopNeighborSet ∧
      ∀ neighborMainAddr twoHopNeighborAddr, next.pending (.twoHopNeighbor neighborMainAddr twoHopNeighborAddr) =
        node.pending (.twoHopNeighbor neighborMainAddr twoHopNeighborAddr) := by
  rw [linkSensing] at sensed
  split at sensed
  case h_1 absent =>
    obtain ⟨sensing, isSensing, rfl⟩ := Option.map_eq_some_iff.1 sensed
    obtain ⟨iface, -⟩ := senseLink_spec isSensing
    have iface : sensing.link.neighborIfaceAddr = senderIface := iface
    obtain ⟨added, delay, isAdded, sets⟩ := node.linkSensed_created sensing hello.willingness
    have linkSet : added.state.linkSet = node.state.linkSet ++ [sensing.link] := sets.linkSet
    have notLink : sensing.link.neighborIfaceAddr ∉ node.state.linkSet.map neighborIfaceAddr := by
      rw [iface]
      exact lookup_eq_none_iff_keys.1 absent
    have pending (expiry : Expiry) : added.pending expiry = node.pending expiry := by
      rw [pending, sets.events]
      rfl
    have isMain : node.mainAddrOf sensing.link = node.getMainAddress senderIface := congrArg node.getMainAddress iface
    refine ⟨consistent.linkSensed_created notLink, ?_, ?_, ?_, ?_⟩
    · rw [isAdded, ← isMain]
      have agrees : added.StatusAgrees (node.mainAddrOf sensing.link) := by
        apply sets.statusAgrees consistent.neighborsUnique
        have stored : added.hasSymmetricLink (node.mainAddrOf sensing.link) =
            (node.hasSymmetricLink (node.mainAddrOf sensing.link) || decide (node.now ≤ sensing.link.symTime)) := by
          rw [hasSymmetricLink_congr sets.linkSet sets.ifaceAssocSet sets.now]
          refine any_append.trans (congrArg (_ || ·) ?_)
          rw [any_cons, any_nil, Bool.or_false, decide_eq_decide]
          exact and_iff_right rfl
        rw [stored]
        obtain symmetric | alone := newLinkSettled absent sensing isSensing
        · simp [symmetric]
        · rw [isMain, alone]
          simp
      exact agrees.congr rfl rfl rfl rfl
    · intro link other
      rw [isAdded]
      change link ∈ added.state.linkSet ↔ _
      rw [linkSet, mem_append, mem_singleton, or_iff_left]
      rintro rfl
      exact other iface
    · rw [isAdded]
      exact sets.twoHopNeighborSet
    · intro neighborMainAddr twoHopNeighborAddr
      rw [isAdded, pending_schedule, pending]
      rfl
  case h_2 old isOld =>
    obtain ⟨sensing, isSensing, rfl⟩ := Option.map_eq_some_iff.1 sensed
    obtain ⟨iface, updated⟩ := senseLink_spec isSensing
    have iface : sensing.link.neighborIfaceAddr = senderIface := iface.trans (keyOf_of_lookup isOld)
    have isLink : sensing.link.neighborIfaceAddr ∈ node.state.linkSet.map neighborIfaceAddr :=
      mem_map.2 ⟨old, mem_of_lookup isOld, (keyOf_of_lookup isOld).trans iface.symm⟩
    obtain ⟨stays, sets⟩ := consistent.linkSensed_updated hello.willingness isLink (updated rfl)
    have isMain : node.mainAddrOf sensing.link = node.getMainAddress senderIface := congrArg node.getMainAddress iface
    refine ⟨stays, ?_, ?_, sets.twoHopNeighborSet, ?_⟩
    · rw [← isMain]
      apply sets.statusAgrees consistent.neighborsUnique
      rw [hasSymmetricLink_congr sets.linkSet sets.ifaceAssocSet sets.now]
      generalize (node.storeLink false sensing.link).hasSymmetricLink (node.mainAddrOf sensing.link) = symmetric
      cases symmetric <;> simp
    · intro link other
      rw [sets.linkSet]
      constructor
      · intro mem
        obtain mem | ⟨-, -, -, rfl⟩ := of_mem_modify mem
        · exact mem
        · exact absurd iface other
      · exact mem_modify_of_ne (iface ▸ other)
    · intro neighborMainAddr twoHopNeighborAddr
      rw [pending, sets.events]
      rfl

theorem processHello_consistent (consistent : node.Consistent)
    (newLinkSettled : NewLinkSettled header hello receiverIface senderIface node)
    (listsSettled : ∀ sensed, node.linkSensing header hello receiverIface senderIface = some sensed ->
      ListsSettled header (sensed.listings header hello) node)
    (processed : node.processHello header hello receiverIface senderIface = some next) :
    next.Consistent ∧ next.StatusAgrees (node.getMainAddress senderIface) ∧
      ∀ link, link.neighborIfaceAddr ≠ senderIface -> (link ∈ next.state.linkSet ↔ link ∈ node.state.linkSet) := by
  obtain ⟨sensed, isSensed, rfl⟩ := Option.map_eq_some_iff.1 processed
  have keeps := keeps_linkSensing isSensed
  obtain ⟨sensedConsistent, agrees, changed, twoHops, pending⟩ :=
    linkSensing_consistent consistent newLinkSettled isSensed
  let populated := sensed.populateNeighborSet header hello
  have populatedConsistent : populated.Consistent := consistent_populateNeighborSet sensedConsistent header hello
  have ifaceAssocSet : populated.state.ifaceAssocSet = node.state.ifaceAssocSet := keeps.ifaceAssocSet
  have sameTwoHops : populated.twoHops = node.twoHops := congrArg (map TwoHopNeighborTuple.addrs) twoHops
  have samePending (neighborMainAddr twoHopNeighborAddr : Ipv4Address) :
      populated.pending (.twoHopNeighbor neighborMainAddr twoHopNeighborAddr) =
        node.pending (.twoHopNeighbor neighborMainAddr twoHopNeighborAddr) :=
          pending neighborMainAddr twoHopNeighborAddr
  have sameMain : populated.mainAddress = node.mainAddress := keeps.mainAddress
  have sameListings : populated.listings header hello = sensed.listings header hello := rfl
  have settled : ListsSettled header (populated.listings header hello) populated := by
    have before := listsSettled sensed isSensed
    rw [sameListings]
    constructor
    · intro mainAddr isOther lists
      rw [sameMain] at isOther
      rw [ListsSymmetric, getMainAddress_congr ifaceAssocSet] at lists
      rw [sameTwoHops, samePending]
      exact before.pending mainAddr isOther lists
    · intro front addr back isSplit
      rw [sameMain, sameTwoHops, ListsSymmetric, ListsSymmetric, getMainAddress_congr ifaceAssocSet]
      exact before.erased front addr back isSplit
  have twoHop := settlesTwoHops_populateTwoHopNeighborSet populatedConsistent settled
  have selectors :=
    sameNeighborhood_populateMprSelectorSet
      (populated.populateTwoHopNeighborSet header hello) header hello
  refine ⟨(twoHop.consistent populatedConsistent).of_same selectors, ?_, ?_⟩
  · have populatedAgrees := agrees.populateNeighborSet header hello
    apply populatedAgrees.congr
    · exact selectors.neighborSet.trans twoHop.neighborSet
    · exact selectors.linkSet.trans twoHop.linkSet
    · exact selectors.ifaceAssocSet.trans twoHop.ifaceAssocSet
    · exact (keeps_populateMprSelectorSet _ header hello).now.trans twoHop.now
  · intro link other
    rw [selectors.linkSet, twoHop.linkSet]
    exact changed link other

end RoutingProtocol

end Ns3.Olsr.Protocol
