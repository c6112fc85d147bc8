import Ns3.Olsr.Protocol.NeighborSensing

/-!
# What a change of main addresses keeps

A MID message associates interfaces with the main address of its originator, and gives the
neighbours and two-hop neighbours the main addresses that are then known; an association that
expires gives its interface its own address back.
-/

namespace Ns3.Olsr.Protocol

open Network Semantics Option KeyedList

namespace RoutingProtocol

variable {node next : RoutingProtocol} {header : MessageHeader} {mid : Mid} {address : Ipv4Address}

/-- The main address that an address is associated with. -/
def associated (node : RoutingProtocol) (address : Ipv4Address) : Option Ipv4Address :=
  (node.state.findIfaceAssocTuple address).map IfaceAssocTuple.mainAddr

theorem getMainAddress_eq (node : RoutingProtocol) (address : Ipv4Address) :
    node.getMainAddress address = (node.associated address).getD address := by
  rw [getMainAddress, OlsrState.getMainAddress, associated]
  cases node.state.findIfaceAssocTuple address <;> rfl

theorem associated_processMidAddress (header : MessageHeader) (node : RoutingProtocol)
    (ifaceAddr address : Ipv4Address) :
    (processMidAddress header node ifaceAddr).associated address =
      (node.associated address).or (if address = ifaceAddr then some header.originatorAddress else none) := by
  rw [processMidAddress]
  split
  case isTrue known =>
    have refreshed (tuples : List IfaceAssocTuple) (time : Int) :
        (lookup IfaceAssocTuple.ifaceAddr address (tuples.map fun tuple =>
          if isAssociationOf header ifaceAddr tuple then { tuple with time := time } else tuple)).map
            IfaceAssocTuple.mainAddr =
          (lookup IfaceAssocTuple.ifaceAddr address tuples).map IfaceAssocTuple.mainAddr := by
      induction tuples with
      | nil => rfl
      | cons tuple tuples ih =>
        rw [List.map_cons, lookup_cons, lookup_cons]
        by_cases same : tuple.ifaceAddr = address
        · rw [if_pos same, if_pos (by split <;> exact same)]
          split <;> rfl
        · rw [if_neg same, if_neg (by split <;> exact same), ih]
    refine (refreshed node.state.ifaceAssocSet _).trans ?_
    change node.associated address = _
    split
    case isTrue same =>
      obtain ⟨tuple, isTuple, isAssociation⟩ := List.any_eq_true.1 known
      have isSome : (node.associated address).isSome := by
        rw [associated, isSome_map, ← ne_none_iff_isSome]
        intro absent
        exact lookup_eq_none.1 absent tuple isTuple ((of_decide_eq_true isAssociation).1.trans same.symm)
      rw [or_of_isSome isSome]
    case isFalse => rw [or_none]
  case isFalse =>
    change ((lookup IfaceAssocTuple.ifaceAddr address (node.state.ifaceAssocSet ++ [_])).map _) = _
    cases found : node.state.findIfaceAssocTuple address with
    | some tuple =>
      rw [associated, found, lookup_append_of_some found]
      rfl
    | none =>
      rw [associated, found, lookup_append_of_none found, lookup_cons]
      by_cases same : address = ifaceAddr
      · rw [if_pos same, if_pos same.symm]
        rfl
      · rw [if_neg same, if_neg (Ne.symm same)]
        rfl

theorem associated_processMidAddresses (header : MessageHeader) (ifaceAddrs : List Ipv4Address) (node : RoutingProtocol)
    (address : Ipv4Address) : (ifaceAddrs.foldl (processMidAddress header) node).associated address =
      (node.associated address).or (if address ∈ ifaceAddrs then some header.originatorAddress else none) := by
  induction ifaceAddrs generalizing node with
  | nil => simp
  | cons ifaceAddr ifaceAddrs ih =>
    rw [List.foldl_cons, ih, associated_processMidAddress, Option.or_assoc]
    by_cases same : address = ifaceAddr <;> simp [same]

/-- The main address of an address, once a MID message is processed. -/
def mainAddressAfter (node : RoutingProtocol) (header : MessageHeader) (mid : Mid)
    (address : Ipv4Address) : Ipv4Address :=
  if node.associated address = none ∧ address ∈ mid.interfaceAddresses then header.originatorAddress
  else node.getMainAddress address

theorem getMainAddress_processMidAddresses (node : RoutingProtocol) (header : MessageHeader) (mid : Mid) :
    (mid.interfaceAddresses.foldl (processMidAddress header) node).getMainAddress =
      node.mainAddressAfter header mid := by
  ext address
  rw [getMainAddress_eq, associated_processMidAddresses, mainAddressAfter, getMainAddress_eq]
  cases node.associated address <;> by_cases listed : address ∈ mid.interfaceAddresses <;> simp [listed]

/-- What the loop over the listed interfaces does not change. -/
structure KeepsNeighborhood (node next : RoutingProtocol) : Prop where
  linkSet : next.state.linkSet = node.state.linkSet
  neighborSet : next.state.neighborSet = node.state.neighborSet
  twoHopNeighborSet : next.state.twoHopNeighborSet = node.state.twoHopNeighborSet
  pending : ∀ expiry : Expiry, expiry.ofNeighborhood -> next.pending expiry = node.pending expiry

theorem keepsNeighborhood_processMidAddresses (header : MessageHeader) (ifaceAddrs : List Ipv4Address)
    (node : RoutingProtocol) : KeepsNeighborhood node (ifaceAddrs.foldl (processMidAddress header) node) := by
  apply foldl_related KeepsNeighborhood
  · exact fun node => ⟨rfl, rfl, rfl, fun _ _ => rfl⟩
  · exact fun first second => ⟨second.linkSet.trans first.linkSet, second.neighborSet.trans first.neighborSet,
      second.twoHopNeighborSet.trans first.twoHopNeighborSet,
      fun expiry tracked => (second.pending expiry tracked).trans (first.pending expiry tracked)⟩
  · intro node ifaceAddr
    rw [processMidAddress]
    split
    · exact ⟨rfl, rfl, rfl, fun _ _ => rfl⟩
    · refine ⟨rfl, rfl, rfl, fun expiry tracked => ?_⟩
      have ne : Expiry.ifaceAssoc ifaceAddr ≠ expiry := by
        rintro rfl
        cases tracked
      rw [pending_schedule, if_neg ne, Nat.add_zero]
      rfl

/-- The main addresses that a MID message makes known are still those that the links map to, belong
to one neighbour each, and do not touch the two-hop neighbours. -/
structure MidSettled (header : MessageHeader) (mid : Mid) (node : RoutingProtocol) : Prop where
  links : ∀ link ∈ node.state.linkSet, node.mainAddressAfter header mid (node.mainAddrOf link) =
    node.mainAddressAfter header mid link.neighborIfaceAddr
  neighbors : ∀ first ∈ node.neighborMains, ∀ other ∈ node.neighborMains,
    node.mainAddressAfter header mid first = node.mainAddressAfter header mid other -> first = other
  twoHops : ∀ addrs ∈ node.twoHops,
    node.mainAddressAfter header mid addrs.1 = addrs.1 ∧ node.mainAddressAfter header mid addrs.2 = addrs.2

theorem Consistent.processMid {senderIface : Ipv4Address} (consistent : node.Consistent)
    (settled : (node.state.findSymLinkTuple senderIface node.now).isSome -> MidSettled header mid node) :
    (node.processMid header mid senderIface).Consistent := by
  rw [RoutingProtocol.processMid]
  split
  case h_1 => exact consistent
  case h_2 found =>
    rw [found] at settled
    have settled := settled rfl
    let associating := mid.interfaceAddresses.foldl (processMidAddress header) node
    have keeps : KeepsNeighborhood node associating :=
      keepsNeighborhood_processMidAddresses header mid.interfaceAddresses node
    have mainAddress : associating.getMainAddress = node.mainAddressAfter header mid :=
      getMainAddress_processMidAddresses node header mid
    have mains : associating.updateMainAddresses.neighborMains =
        node.neighborMains.map (node.mainAddressAfter header mid) := by
      rw [neighborMains, updateMainAddresses, mainAddress, keeps.neighborSet, neighborMains, List.map_map, List.map_map]
      rfl
    have twoHops : associating.updateMainAddresses.twoHops = node.twoHops := by
      rw [RoutingProtocol.twoHops, updateMainAddresses, mainAddress, keeps.twoHopNeighborSet, List.map_map]
      apply List.map_congr_left
      intro tuple isTuple
      obtain ⟨first, second⟩ := settled.twoHops tuple.addrs (List.mem_map_of_mem isTuple)
      exact Prod.ext first second
    have mainAddrOf (link : LinkTuple) : associating.updateMainAddresses.mainAddrOf link =
        node.mainAddressAfter header mid link.neighborIfaceAddr := congrFun mainAddress link.neighborIfaceAddr
    refine ⟨?_, ?_, fun mainAddr => ?_, fun ifaceAddr => ?_, ?_, fun addrs mem => ?_⟩
    · exact keeps.linkSet ▸ consistent.linksUnique
    · change associating.updateMainAddresses.neighborMains.Nodup
      rw [mains]
      exact consistent.neighborsUnique.map_on settled.neighbors
    · change mainAddr ∈ associating.updateMainAddresses.neighborMains ↔ mainAddr ∈ associating.state.linkSet.map _
      rw [mains, keeps.linkSet, List.mem_map, List.mem_map]
      constructor
      · rintro ⟨old, isOld, rfl⟩
        obtain ⟨link, isLink, rfl⟩ := List.mem_map.1 ((consistent.neighbors old).1 isOld)
        exact ⟨link, isLink, (mainAddrOf link).trans (settled.links link isLink).symm⟩
      · rintro ⟨link, isLink, rfl⟩
        refine ⟨node.mainAddrOf link, (consistent.neighbors _).2 (List.mem_map_of_mem isLink), ?_⟩
        rw [mainAddrOf, settled.links link isLink]
    · change associating.pending (.link ifaceAddr) = if ifaceAddr ∈ associating.state.linkSet.map _ then 1 else 0
      rw [keeps.pending _ rfl, keeps.linkSet]
      exact consistent.linkEvents ifaceAddr
    · change associating.updateMainAddresses.twoHops.Nodup
      rw [twoHops]
      exact consistent.twoHopsUnique
    · change addrs ∈ associating.updateMainAddresses.twoHops at mem
      rw [twoHops] at mem
      exact (keeps.pending (.twoHopNeighbor addrs.1 addrs.2) rfl).trans (consistent.twoHopEvents addrs mem)

theorem getMainAddress_eraseIfaceAssocTuple {tuple : IfaceAssocTuple} (other : address ≠ tuple.ifaceAddr)
    (ifaceAssocSet : next.state.ifaceAssocSet = (node.state.eraseIfaceAssocTuple tuple).ifaceAssocSet) :
    next.getMainAddress address = node.getMainAddress address := by
  have isKey (other : IfaceAssocTuple)
      (isErased : decide (other.ifaceAddr = tuple.ifaceAddr ∧ other.mainAddr = tuple.mainAddr) = true) :
      other.ifaceAddr = tuple.ifaceAddr := (of_decide_eq_true isErased).1
  have lookup := lookup_eraseP_of_ne isKey other node.state.ifaceAssocSet
  rw [getMainAddress_eq, getMainAddress_eq, associated, OlsrState.findIfaceAssocTuple, ifaceAssocSet]
  exact congrArg (fun found => (Option.map IfaceAssocTuple.mainAddr found).getD address) lookup

end RoutingProtocol

end Ns3.Olsr.Protocol
