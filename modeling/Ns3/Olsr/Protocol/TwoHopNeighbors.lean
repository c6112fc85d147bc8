import Ns3.Olsr.Protocol.Neighborhood

/-!
# Neighbours of the neighbour

A HELLO message from a neighbour with a symmetric link adds, refreshes and erases two-hop
neighbours, one listed address after the other. A tuple that is erased leaves its event pending, so
that a tuple that is added again would have two.
-/

namespace Ns3.Olsr.Protocol

open Network Semantics List

/-- The addresses that a HELLO message lists, with their types. -/
def Hello.listings (hello : Hello) : List (UInt8 × Ipv4Address) :=
  hello.linkMessages.flatMap fun linkMessage =>
    linkMessage.neighborInterfaceAddresses.map fun address => (linkMessage.neighborType, address)

namespace RoutingProtocol

variable {node next : RoutingProtocol} {header : MessageHeader} {hello : Hello} {address mainAddr : Ipv4Address}
  {neighborType : UInt8} {front back : List (UInt8 × Ipv4Address)}

def twoHops (node : RoutingProtocol) : List (Ipv4Address × Ipv4Address) :=
  node.state.twoHopNeighborSet.map TwoHopNeighborTuple.addrs

/-- Whether a link is a symmetric one to the originator. -/
def isSymmetricTo (node : RoutingProtocol) (header : MessageHeader) (link : LinkTuple) : Bool :=
  node.getMainAddress link.neighborIfaceAddr = header.originatorAddress ∧ node.now ≤ link.symTime

/-- The addresses that the loop over links, link messages and addresses looks at. -/
def listings (node : RoutingProtocol) (header : MessageHeader) (hello : Hello) : List (UInt8 × Ipv4Address) :=
  (node.state.linkSet.filter (node.isSymmetricTo header)).flatMap fun _ => hello.listings

def populateListing (header : MessageHeader) (node : RoutingProtocol)
    (listing : UInt8 × Ipv4Address) : RoutingProtocol :=
  populateTwoHopAddress header listing.1 node listing.2

theorem populateTwoHopLink_eq (header : MessageHeader) (hello : Hello) (node : RoutingProtocol) (link : LinkTuple) :
    populateTwoHopLink header hello node link =
      if node.isSymmetricTo header link then hello.listings.foldl (populateListing header) node else node := by
  rw [populateTwoHopLink, Hello.listings, foldl_flatMap, isSymmetricTo]
  simp only [decide_eq_true_eq]
  congr 2
  ext node linkMessage
  rw [populateTwoHopMessage, foldl_map]
  rfl

theorem populateTwoHopNeighborSet_eq (node : RoutingProtocol) (header : MessageHeader) (hello : Hello) :
    node.populateTwoHopNeighborSet header hello = (node.listings header hello).foldl (populateListing header) node := by
  -- The links are looked at by the node as the loop has left it, and it has changed no main address.
  have loop (links : List LinkTuple) {next : RoutingProtocol}
    (ifaceAssocSet : next.state.ifaceAssocSet = node.state.ifaceAssocSet)
      (now : next.now = node.now) : links.foldl (populateTwoHopLink header hello) next =
        ((links.filter (node.isSymmetricTo header)).flatMap fun _ => hello.listings).foldl
          (populateListing header) next := by
    induction links generalizing next with
    | nil => rfl
    | cons link links ih =>
      have same : next.isSymmetricTo header link = node.isSymmetricTo header link := by
        rw [isSymmetricTo, isSymmetricTo, getMainAddress_congr ifaceAssocSet, now]
      rw [foldl_cons, populateTwoHopLink_eq, same]
      cases symmetric : node.isSymmetricTo header link with
      | true =>
        have keeps : next.HelloKeeps (hello.listings.foldl (populateListing header) next) := by
          apply HelloKeeps.foldl
          exact fun node listing => keeps_populateTwoHopAddress header listing.1 node listing.2
        rw [filter_cons_of_pos symmetric, flatMap_cons, foldl_append]
        exact ih (keeps.ifaceAssocSet.trans ifaceAssocSet) (keeps.now.trans now)
      | false =>
        rw [filter_cons_of_neg (Bool.eq_false_iff.1 symmetric)]
        exact ih ifaceAssocSet now
  exact loop node.state.linkSet rfl rfl

def symmetricTypes (neighborType : UInt8) : Prop :=
  neighborType = symNeigh ∨ neighborType = mprNeigh

/-- Whether a main address is listed as symmetric. -/
def ListsSymmetric (node : RoutingProtocol) (listings : List (UInt8 × Ipv4Address)) (mainAddr : Ipv4Address) : Prop :=
  ∃ listing ∈ listings, symmetricTypes listing.1 ∧ node.getMainAddress listing.2 = mainAddr

/-- No main address that is listed as symmetric has lost its tuple while its event is pending,
before the message or by it. -/
structure ListsSettled (header : MessageHeader) (listings : List (UInt8 × Ipv4Address))
    (node : RoutingProtocol) : Prop where
  pending : ∀ mainAddr, mainAddr ≠ node.mainAddress -> node.ListsSymmetric listings mainAddr ->
    (header.originatorAddress, mainAddr) ∈ node.twoHops ∨
      node.pending (.twoHopNeighbor header.originatorAddress mainAddr) = 0
  erased : ∀ front address back, listings = front ++ (notNeigh, address) :: back ->
    node.getMainAddress address ≠ node.mainAddress ->
      (header.originatorAddress, node.getMainAddress address) ∈ node.twoHops ∨
          node.ListsSymmetric front (node.getMainAddress address) ->
        ¬node.ListsSymmetric back (node.getMainAddress address)

/-- What the loop keeps between the addresses before and those after. -/
structure SettlesTwoHops (header : MessageHeader) (front back : List (UInt8 × Ipv4Address))
    (node next : RoutingProtocol) : Prop where
  linkSet : next.state.linkSet = node.state.linkSet
  neighborSet : next.state.neighborSet = node.state.neighborSet
  ifaceAssocSet : next.state.ifaceAssocSet = node.state.ifaceAssocSet
  mainAddress : next.mainAddress = node.mainAddress
  now : next.now = node.now
  linkEvents : ∀ ifaceAddr, next.pending (.link ifaceAddr) = node.pending (.link ifaceAddr)
  unique : next.twoHops.Nodup
  events : ∀ addrs ∈ next.twoHops, next.pending (.twoHopNeighbor addrs.1 addrs.2) = 1
  origin : ∀ mainAddr, (header.originatorAddress, mainAddr) ∈ next.twoHops ->
    (header.originatorAddress, mainAddr) ∈ node.twoHops ∨ node.ListsSymmetric front mainAddr
  settled : ∀ mainAddr, mainAddr ≠ node.mainAddress -> node.ListsSymmetric back mainAddr ->
    (header.originatorAddress, mainAddr) ∈ next.twoHops ∨
      next.pending (.twoHopNeighbor header.originatorAddress mainAddr) = 0

theorem ListsSymmetric.append (listing : UInt8 × Ipv4Address) (lists : node.ListsSymmetric front mainAddr) :
    node.ListsSymmetric (front ++ [listing]) mainAddr := by
  obtain ⟨listed, mem, isMain⟩ := lists
  exact ⟨listed, mem_append_left _ mem, isMain⟩

theorem ListsSymmetric.cons (listing : UInt8 × Ipv4Address) (lists : node.ListsSymmetric back mainAddr) :
    node.ListsSymmetric (listing :: back) mainAddr := by
  obtain ⟨listed, mem, isMain⟩ := lists
  exact ⟨listed, mem_cons_of_mem listing mem, isMain⟩

theorem SettlesTwoHops.getMainAddress (settles : SettlesTwoHops header front back node next) (address : Ipv4Address) :
    next.getMainAddress address = node.getMainAddress address :=
  congrFun (getMainAddress_congr settles.ifaceAssocSet) address

theorem SettlesTwoHops.skip {listing : UInt8 × Ipv4Address}
    (settles : SettlesTwoHops header front (listing :: back) node next) :
    SettlesTwoHops header (front ++ [listing]) back node next := by
  refine ⟨settles.linkSet, settles.neighborSet, settles.ifaceAssocSet, settles.mainAddress,
    settles.now, settles.linkEvents,
    settles.unique, settles.events, ?_, ?_⟩
  · exact fun mainAddr mem => (settles.origin mainAddr mem).imp_right (.append listing)
  · exact fun mainAddr isOther lists => settles.settled mainAddr isOther (lists.cons listing)

/-- An address that is listed as symmetric is refreshed, or added with its event. -/
theorem SettlesTwoHops.symmetric (settles : SettlesTwoHops header front ((neighborType, address) :: back) node next)
    (symmetric : symmetricTypes neighborType) :
    SettlesTwoHops header (front ++ [(neighborType, address)]) back node
      (populateListing header next (neighborType, address)) := by
  have isMain : next.getMainAddress address = node.getMainAddress address := settles.getMainAddress address
  have isSymmetric : neighborType = symNeigh ∨ neighborType = mprNeigh := symmetric
  rw [populateListing, populateTwoHopAddress, if_pos isSymmetric]
  split
  case isTrue => exact settles.skip
  case isFalse other =>
    rw [settles.mainAddress, isMain] at other
    split
    case h_2 old isTuple =>
      have keeps (tuple : TwoHopNeighborTuple)
          (isKey : tuple.addrs = (header.originatorAddress, next.getMainAddress address)) :
          { tuple with expirationTime := next.now + header.getVTime }.addrs =
            (header.originatorAddress, next.getMainAddress address) := isKey
      have twoHops : { next with
          state := next.state.modifyTwoHopNeighborTuple header.originatorAddress (next.getMainAddress address)
            (next.now + header.getVTime) }.twoHops = next.twoHops :=
        KeyedList.map_keyOf_modify keeps next.state.twoHopNeighborSet
      have skipped := settles.skip
      refine ⟨settles.linkSet, settles.neighborSet, settles.ifaceAssocSet, settles.mainAddress, settles.now,
        settles.linkEvents, ?_, ?_, ?_, ?_⟩
      · rw [twoHops]
        exact skipped.unique
      · rw [twoHops]
        exact skipped.events
      · rw [twoHops]
        exact skipped.origin
      · rw [twoHops]
        exact skipped.settled
    case h_1 isTuple =>
      have absent : (header.originatorAddress, next.getMainAddress address) ∉ next.twoHops :=
        KeyedList.lookup_eq_none_iff_keys.1 isTuple
      have listed : node.ListsSymmetric ((neighborType, address) :: back) (node.getMainAddress address) :=
        ⟨(neighborType, address), mem_cons_self, symmetric, rfl⟩
      have quiet : next.pending (.twoHopNeighbor header.originatorAddress (node.getMainAddress address)) = 0 :=
        (settles.settled _ other listed).resolve_left (isMain ▸ absent)
      rw [isMain] at absent ⊢
      let added : RoutingProtocol :=
        { next with
          state := next.state.insertTwoHopNeighborTuple
            ⟨header.originatorAddress, node.getMainAddress address, next.now + header.getVTime⟩ }
      have twoHops : added.twoHops = next.twoHops ++ [(header.originatorAddress, node.getMainAddress address)] :=
        map_append
      refine ⟨settles.linkSet, settles.neighborSet, settles.ifaceAssocSet, settles.mainAddress,
        settles.now, ?_, ?_, ?_, ?_, ?_⟩
      · intro ifaceAddr
        rw [pending_schedule]
        exact settles.linkEvents ifaceAddr
      · change added.twoHops.Nodup
        rw [twoHops]
        exact settles.unique.append (nodup_singleton _) (disjoint_singleton.2 absent)
      · intro addrs mem
        change addrs ∈ added.twoHops at mem
        rw [twoHops, mem_append, mem_singleton] at mem
        rw [pending_schedule]
        change next.pending _ + _ = 1
        obtain mem | rfl := mem
        · have ne : Expiry.twoHopNeighbor header.originatorAddress (node.getMainAddress address) ≠
              .twoHopNeighbor addrs.1 addrs.2 := by
            intro same
            injection same with originator twoHop
            apply absent
            rw [originator, twoHop]
            exact mem
          rw [settles.events addrs mem, if_neg ne]
        · rw [quiet, if_pos rfl]
      · intro mainAddr mem
        change (header.originatorAddress, mainAddr) ∈ added.twoHops at mem
        rw [twoHops, mem_append, mem_singleton] at mem
        obtain mem | same := mem
        · exact (settles.origin mainAddr mem).imp_right (.append _)
        · injection same with _ same
          exact .inr ⟨(neighborType, address), mem_append_right _ (mem_singleton_self _), symmetric, same.symm⟩
      · intro mainAddr isOther lists
        change (header.originatorAddress, mainAddr) ∈ added.twoHops ∨ _
        rw [twoHops, mem_append, mem_singleton]
        by_cases same : mainAddr = node.getMainAddress address
        · exact .inl (.inr (by rw [same]))
        · have ne : Expiry.twoHopNeighbor header.originatorAddress (node.getMainAddress address) ≠
              .twoHopNeighbor header.originatorAddress mainAddr := by
            intro equal
            injection equal with _ twoHop
            exact same twoHop.symm
          rw [pending_schedule, if_neg ne, Nat.add_zero]
          exact (settles.settled mainAddr isOther (lists.cons _)).imp_left .inl

theorem SettlesTwoHops.notNeigh (settles : SettlesTwoHops header front ((Protocol.notNeigh, address) :: back) node next)
    (erased : node.getMainAddress address ≠ node.mainAddress ->
      (header.originatorAddress, node.getMainAddress address) ∈ node.twoHops ∨
          node.ListsSymmetric front (node.getMainAddress address) ->
        ¬node.ListsSymmetric back (node.getMainAddress address)) :
    SettlesTwoHops header (front ++ [(Protocol.notNeigh, address)]) back node
      (populateListing header next (Protocol.notNeigh, address)) := by
  let erasing : RoutingProtocol :=
    { next with state := next.state.eraseTwoHopNeighborTuples header.originatorAddress (node.getMainAddress address) }
  have isErasing : populateListing header next (Protocol.notNeigh, address) = erasing := by
    rw [populateListing, populateTwoHopAddress, settles.getMainAddress]
    rfl
  have twoHops {addrs : Ipv4Address × Ipv4Address} : addrs ∈ erasing.twoHops ↔
      addrs ∈ next.twoHops ∧ addrs ≠ (header.originatorAddress, node.getMainAddress address) := by
    simp only [erasing, RoutingProtocol.twoHops, OlsrState.eraseTwoHopNeighborTuples, List.mem_map, mem_filter,
      decide_eq_true_eq]
    constructor
    · rintro ⟨tuple, ⟨mem, other⟩, rfl⟩
      exact ⟨⟨tuple, mem, rfl⟩, other⟩
    · rintro ⟨⟨tuple, mem, rfl⟩, other⟩
      exact ⟨tuple, ⟨mem, other⟩, rfl⟩
  have skipped := settles.skip
  rw [isErasing]
  refine ⟨settles.linkSet, settles.neighborSet, settles.ifaceAssocSet, settles.mainAddress, settles.now,
    settles.linkEvents, ?_, ?_, ?_, ?_⟩
  · exact settles.unique.sublist (filter_sublist.map TwoHopNeighborTuple.addrs)
  · exact fun addrs mem => settles.events addrs (twoHops.1 mem).1
  · exact fun mainAddr mem => skipped.origin mainAddr (twoHops.1 mem).1
  · intro mainAddr isOther lists
    refine (skipped.settled mainAddr isOther lists).imp_left fun mem => twoHops.2 ⟨mem, ?_⟩
    intro same
    injection same with _ isErased
    rw [isErased] at isOther lists mem
    exact erased isOther (settles.origin _ mem) lists

theorem SettlesTwoHops.listing {listing : UInt8 × Ipv4Address} {listings : List (UInt8 × Ipv4Address)}
    (listsSettled : ListsSettled header listings node) (isSplit : listings = front ++ listing :: back)
    (settles : SettlesTwoHops header front (listing :: back) node next) :
    SettlesTwoHops header (front ++ [listing]) back node (populateListing header next listing) := by
  obtain ⟨neighborType, address⟩ := listing
  by_cases symmetric : symmetricTypes neighborType
  · exact settles.symmetric symmetric
  · by_cases isNotNeigh : neighborType = Protocol.notNeigh
    · rw [isNotNeigh] at settles isSplit ⊢
      exact settles.notNeigh (listsSettled.erased front address back isSplit)
    · have ignored : ¬(neighborType = symNeigh ∨ neighborType = mprNeigh) := symmetric
      rw [populateListing, populateTwoHopAddress, if_neg ignored, if_neg isNotNeigh]
      exact settles.skip

theorem SettlesTwoHops.foldl {listings : List (UInt8 × Ipv4Address)} (listsSettled : ListsSettled header listings node)
    (isSplit : listings = front ++ back) (settles : SettlesTwoHops header front back node next) :
    SettlesTwoHops header listings [] node (back.foldl (populateListing header) next) := by
  induction back generalizing front next with
  | nil =>
    rw [isSplit, append_nil]
    exact settles
  | cons listing back ih =>
    rw [foldl_cons]
    apply ih _ (settles.listing listsSettled isSplit)
    rw [isSplit, append_assoc, singleton_append]

theorem settlesTwoHops_populateTwoHopNeighborSet (consistent : node.Consistent)
    (listsSettled : ListsSettled header (node.listings header hello) node) :
    SettlesTwoHops header (node.listings header hello) [] node (node.populateTwoHopNeighborSet header hello) := by
  rw [populateTwoHopNeighborSet_eq]
  have started : SettlesTwoHops header [] (node.listings header hello) node node :=
    ⟨rfl, rfl, rfl, rfl, rfl, fun _ => rfl, consistent.twoHopsUnique, consistent.twoHopEvents, fun _ mem => .inl mem,
      listsSettled.pending⟩
  exact started.foldl listsSettled rfl

theorem SettlesTwoHops.consistent (settles : SettlesTwoHops header front back node next)
    (consistent : node.Consistent) : next.Consistent where
  linksUnique := by
    rw [settles.linkSet]
    exact consistent.linksUnique
  neighborsUnique := by
    rw [settles.neighborSet]
    exact consistent.neighborsUnique
  neighbors := by
    rw [settles.neighborSet, settles.linkSet, mainAddrOf_congr settles.ifaceAssocSet]
    exact consistent.neighbors
  linkEvents ifaceAddr := by
    rw [settles.linkSet, settles.linkEvents]
    exact consistent.linkEvents ifaceAddr
  twoHopsUnique := settles.unique
  twoHopEvents := settles.events

end RoutingProtocol

end Ns3.Olsr.Protocol
