import Ns3.Olsr.Protocol.Neighborhood

/-!
# Advertised neighbours

A node advertises the neighbours that have selected it. Selectors are added and expire with a step
of the sequence number, but `NeighborLoss` erases them without one.
-/

namespace Ns3.Olsr.Protocol

open Network Semantics Option Nat

namespace RoutingProtocol

def advertised (node : RoutingProtocol) : List Ipv4Address :=
  node.state.mprSelectorSet.map MprSelectorTuple.mainAddr

/-- The sequence number has stepped some times, and the advertised neighbours are the same unless it
has. -/
def Advances (steps : Nat) (node next : RoutingProtocol) : Prop :=
  next.ansn = node.ansn + UInt16.ofNat steps ∧ (steps = 0 -> next.advertised = node.advertised)

section Advances

variable {node middle next : RoutingProtocol} {first second : Nat} {header : MessageHeader}
  {receiverIface senderIface : Ipv4Address}

theorem Advances.trans (advances : Advances first node middle) (advances' : Advances second middle next) :
    Advances (first + second) node next := by
  constructor
  · rw [advances'.1, advances.1, UInt16.ofNat_add, add_assoc]
  · intro none
    rw [Nat.add_eq_zero_iff] at none
    exact (advances'.2 none.2).trans (advances.2 none.1)

theorem Advances.of_eq (ansn : next.ansn = node.ansn)
    (mprSelectorSet : next.state.mprSelectorSet = node.state.mprSelectorSet) :
    Advances 0 node next :=
  ⟨by simp [ansn], fun _ => by rw [advertised, advertised, mprSelectorSet]⟩

theorem Advances.of_incrementAnsn (ansn : next.ansn = node.ansn + 1) : Advances 1 node next :=
  ⟨ansn, fun absurd => by cases absurd⟩

variable {Item : Type} {mainAddr : Ipv4Address}

theorem Advances.foldl {change : RoutingProtocol -> Item -> RoutingProtocol}
    (each : ∀ node item, (change node item).ansn = node.ansn ∧
      (change node item).state.mprSelectorSet = node.state.mprSelectorSet) (items : List Item)
        (node : RoutingProtocol) : Advances 0 node (items.foldl change node) := by
  apply Advances.of_eq
  · exact foldl_reads (fun node => node.ansn) (fun node item => (each node item).1) items node
  · exact foldl_reads (fun node => node.state.mprSelectorSet) (fun node item => (each node item).2) items node

theorem advances_linkTupleUpdated (node : RoutingProtocol) (tuple : LinkTuple) (willingness : UInt8) :
    ∃ steps ≤ 1, Advances steps node (node.linkTupleUpdated tuple willingness) := by
  rw [linkTupleUpdated]
  split
  · exact ⟨0, zero_le 1, .of_eq rfl rfl⟩
  · exact ⟨1, le_rfl, .of_incrementAnsn rfl⟩

theorem advances_linkSensed (node : RoutingProtocol) (created : Bool) (sensing : Sensing) (willingness : UInt8) :
    ∃ steps ≤ 2, Advances steps node (node.linkSensed created sensing willingness) := by
  have stored : Advances 0 node (node.storeLink created sensing.link) := by
    cases created <;> exact .of_eq rfl rfl
  obtain ⟨steps, atMost, updated⟩ : ∃ steps ≤ 1, Advances steps node
      (if sensing.updated then (node.storeLink created sensing.link).linkTupleUpdated sensing.link willingness
      else node.storeLink created sensing.link) := by
    split
    · obtain ⟨steps, atMost, updated⟩ :=
        advances_linkTupleUpdated (node.storeLink created sensing.link) sensing.link willingness
      exact ⟨0 + steps, by omega, stored.trans updated⟩
    · exact ⟨0, zero_le 1, stored⟩
  rw [linkSensed]
  generalize (if sensing.updated then (node.storeLink created sensing.link).linkTupleUpdated sensing.link willingness
    else node.storeLink created sensing.link) = linked at updated
  split
  · exact ⟨steps + 1, by omega, updated.trans (.of_incrementAnsn rfl)⟩
  · exact ⟨steps, by omega, updated⟩

theorem advances_populateTwoHopNeighborSet (node : RoutingProtocol) (header : MessageHeader) (hello : Hello) :
    Advances 0 node (node.populateTwoHopNeighborSet header hello) := by
  have addr (neighborType : UInt8) (node : RoutingProtocol) (addr : Ipv4Address) :
      (populateTwoHopAddress header neighborType node addr).ansn = node.ansn ∧
        (populateTwoHopAddress header neighborType node addr).state.mprSelectorSet = node.state.mprSelectorSet := by
    rw [populateTwoHopAddress]
    split
    · split
      · exact ⟨rfl, rfl⟩
      · split <;> exact ⟨rfl, rfl⟩
    · split <;> exact ⟨rfl, rfl⟩
  have message (node : RoutingProtocol) (linkMessage : LinkMessage) :
      (populateTwoHopMessage header node linkMessage).ansn = node.ansn ∧
        (populateTwoHopMessage header node linkMessage).state.mprSelectorSet = node.state.mprSelectorSet :=
    ⟨foldl_reads (fun node => node.ansn) (fun node item => (addr linkMessage.neighborType node item).1) _ node,
      foldl_reads (fun node => node.state.mprSelectorSet)
        (fun node item => (addr linkMessage.neighborType node item).2) _
        node⟩
  apply Advances.foldl
  intro node link
  rw [populateTwoHopLink]
  split
  · exact ⟨foldl_reads (fun node => node.ansn) (fun node item => (message node item).1) _ node,
      foldl_reads (fun node => node.state.mprSelectorSet) (fun node item => (message node item).2) _ node⟩
  · exact ⟨rfl, rfl⟩

/-- A HELLO message adds its originator to the selectors once at most. -/
def SelectorAdded (mainAddr : Ipv4Address) (node next : RoutingProtocol) : Prop :=
  next.ansn = node.ansn ∧ next.advertised = node.advertised ∨
    next.ansn = node.ansn + 1 ∧ mainAddr ∉ node.advertised ∧ mainAddr ∈ next.advertised

theorem SelectorAdded.trans (added : SelectorAdded mainAddr node middle)
    (added' : SelectorAdded mainAddr middle next) : SelectorAdded mainAddr node next := by
  obtain ⟨ansn, same⟩ | ⟨ansn, absent, present⟩ := added
  · rw [SelectorAdded, ansn, same] at added'
    exact added'
  · obtain ⟨ansn', same⟩ | ⟨-, absent', -⟩ := added'
    · exact .inr ⟨ansn'.trans ansn, absent, same ▸ present⟩
    · exact absurd present absent'

theorem SelectorAdded.foldl {change : RoutingProtocol -> Item -> RoutingProtocol}
    (each : ∀ node item, SelectorAdded mainAddr node (change node item)) (items : List Item) (node : RoutingProtocol) :
    SelectorAdded mainAddr node (items.foldl change node) :=
  foldl_related (SelectorAdded mainAddr) (fun _ => .inl ⟨rfl, rfl⟩) SelectorAdded.trans each items node

theorem selectorAdded_populateMprSelectorAddress (header : MessageHeader) (node : RoutingProtocol)
    (addr : Ipv4Address) :
    SelectorAdded header.originatorAddress node (populateMprSelectorAddress header node addr) := by
  rw [populateMprSelectorAddress]
  split
  · split
    case h_1 absent =>
      right
      refine ⟨rfl, KeyedList.lookup_eq_none_iff_keys.1 absent, ?_⟩
      simp [advertised, addMprSelectorTuple, incrementAnsn, schedule, OlsrState.insertMprSelectorTuple]
    case h_2 =>
      left
      refine ⟨rfl, ?_⟩
      apply KeyedList.map_keyOf_modify
      exact fun tuple isKey => isKey
  · exact .inl ⟨rfl, rfl⟩

theorem advances_populateMprSelectorSet (node : RoutingProtocol) (header : MessageHeader) (hello : Hello) :
    ∃ steps ≤ 1, Advances steps node (node.populateMprSelectorSet header hello) := by
  have added : SelectorAdded header.originatorAddress node (node.populateMprSelectorSet header hello) := by
    apply SelectorAdded.foldl
    intro node linkMessage
    rw [populateMprSelectorMessage]
    split
    · exact .foldl (selectorAdded_populateMprSelectorAddress header) _ node
    · exact .inl ⟨rfl, rfl⟩
  obtain ⟨ansn, same⟩ | ⟨ansn, -, -⟩ := added
  · exact ⟨0, zero_le 1, by simp [ansn], fun _ => same⟩
  · exact ⟨1, le_rfl, .of_incrementAnsn ansn⟩

theorem advances_processHello {hello : Hello}
    (processed : node.processHello header hello receiverIface senderIface = some next) :
    ∃ steps ≤ 3, Advances steps node next := by
  obtain ⟨sensed, isSensed, rfl⟩ := map_eq_some_iff.1 processed
  obtain ⟨linkSteps, linkAtMost, link⟩ : ∃ steps ≤ 2, Advances steps node sensed := by
    rw [linkSensing] at isSensed
    split at isSensed
    · obtain ⟨sensing, -, rfl⟩ := map_eq_some_iff.1 isSensed
      exact advances_linkSensed node true sensing hello.willingness
    · obtain ⟨sensing, -, rfl⟩ := map_eq_some_iff.1 isSensed
      exact advances_linkSensed node false sensing hello.willingness
  have neighbor : Advances 0 sensed (sensed.populateNeighborSet header hello) := .of_eq rfl rfl
  have twoHop := (sensed.populateNeighborSet header hello).advances_populateTwoHopNeighborSet header hello
  obtain ⟨selectorSteps, selectorAtMost, selector⟩ :=
    ((sensed.populateNeighborSet header hello).populateTwoHopNeighborSet header
      hello).advances_populateMprSelectorSet header hello
  exact ⟨linkSteps + 0 + 0 + selectorSteps, by omega, ((link.trans neighbor).trans twoHop).trans selector⟩

theorem Advances.of_sensed (same : next.sensed = node.sensed) : Advances 0 node next :=
  .of_eq (congrArg (fun sensed => sensed.2.2) same) (congrArg (fun sensed => sensed.2.1) same)

theorem advances_processMessage (processed : node.processMessage header receiverIface senderIface = some next) :
    ∃ steps ≤ 3, Advances steps node next := by
  cases isHello : header.message with
  | hello hello =>
    rw [processMessage, isHello] at processed
    exact advances_processHello processed
  | tc tc => exact ⟨0, zero_le 3, .of_sensed (sensed_processMessage (isHello ▸ rfl) processed)⟩
  | mid mid => exact ⟨0, zero_le 3, .of_sensed (sensed_processMessage (isHello ▸ rfl) processed)⟩
  | hna hna => exact ⟨0, zero_le 3, .of_sensed (sensed_processMessage (isHello ▸ rfl) processed)⟩

theorem advances_recvMessage (received : node.recvMessage header receiverIface senderIface = some next) :
    ∃ steps ≤ 3, Advances steps node next := by
  obtain ⟨-, forwards⟩ | ⟨-, processed, isProcessed, forwards⟩ := recvMessage_forwards received
  · exact ⟨0, zero_le 3, .of_sensed forwards.sensed⟩
  · obtain ⟨steps, atMost, advances⟩ := advances_processMessage isProcessed
    exact ⟨steps, atMost, advances.trans (.of_sensed forwards.sensed)⟩

/-- The event finds the link to a neighbour lost, and erases the selection that is there of it.
Where the neighbour has no tuple, the one that `LinkTupleUpdated` makes steps the number. -/
def losesSelector (node : RoutingProtocol) (neighborIfaceAddr : Ipv4Address) : Prop :=
  ∃ tuple, node.state.findLinkTuple neighborIfaceAddr = some tuple ∧ node.now ≤ tuple.time ∧ tuple.symTime < node.now ∧
    node.linkTupleTimerFirstTime = false ∧
    (node.state.findNeighborTuple (node.getMainAddress neighborIfaceAddr)).isSome ∧
    node.getMainAddress neighborIfaceAddr ∈ node.advertised

theorem advances_neighborLoss (node : RoutingProtocol) (tuple : LinkTuple)
    (keeps : (node.state.findNeighborTuple (node.getMainAddress tuple.neighborIfaceAddr)).isSome ->
      node.getMainAddress tuple.neighborIfaceAddr ∉ node.advertised) :
    ∃ steps ≤ 1, Advances steps node (node.neighborLoss tuple) := by
  cases isNeighbor : node.state.findNeighborTuple (node.getMainAddress tuple.neighborIfaceAddr) with
  | none =>
    refine ⟨1, le_rfl, .of_incrementAnsn ?_⟩
    rw [neighborLoss, linkTupleUpdated, isNeighbor]
    rfl
  | some neighbor =>
    refine ⟨0, zero_le 1, ?_⟩
    have notSelector := keeps (isSome_of_eq_some isNeighbor)
    rw [neighborLoss, linkTupleUpdated, isNeighbor]
    apply Advances.of_eq
    · rfl
    · apply List.filter_eq_self.2
      intro selector isSelector
      apply decide_eq_true
      intro same
      apply notSelector
      rw [← same]
      exact List.mem_map_of_mem isSelector

theorem advances_linkTupleTimerExpire {neighborIfaceAddr : Ipv4Address}
    (keeps : ¬node.losesSelector neighborIfaceAddr) :
    ∃ steps ≤ 1, Advances steps node (node.linkTupleTimerExpire neighborIfaceAddr) := by
  rw [linkTupleTimerExpire]
  split
  case h_1 => exact ⟨0, zero_le 1, .of_sensed rfl⟩
  case h_2 tuple found =>
    have isKey : tuple.neighborIfaceAddr = neighborIfaceAddr := KeyedList.keyOf_of_lookup found
    split
    case isTrue => exact ⟨0, zero_le 1, .of_eq rfl rfl⟩
    case isFalse alive =>
      split
      case isFalse => exact ⟨0, zero_le 1, .of_sensed rfl⟩
      case isTrue lost =>
        split
        case isTrue => exact ⟨0, zero_le 1, .of_sensed rfl⟩
        case isFalse again =>
          have notSelector : (node.state.findNeighborTuple (node.getMainAddress tuple.neighborIfaceAddr)).isSome ->
              node.getMainAddress tuple.neighborIfaceAddr ∉ node.advertised := by
            rw [isKey]
            intro isNeighbor isSelector
            exact keeps ⟨tuple, found, not_lt.1 alive, lost, Bool.eq_false_iff.2 again, isNeighbor, isSelector⟩
          obtain ⟨steps, atMost, advances⟩ := node.advances_neighborLoss tuple notSelector
          exact ⟨steps + 0, atMost, advances.trans (.of_sensed rfl)⟩

theorem advances_expire {expiry : Expiry} (keeps : ∀ neighborIfaceAddr, expiry = .link neighborIfaceAddr ->
    ¬node.losesSelector neighborIfaceAddr) : ∃ steps ≤ 1, Advances steps node (node.expire expiry) := by
  obtain ⟨ifaceAddr, rfl⟩ | ⟨delay, same⟩ | forgets := node.expire_cases expiry
  · exact advances_linkTupleTimerExpire (keeps ifaceAddr rfl)
  · exact ⟨0, zero_le 1, .of_sensed (same ▸ rfl)⟩
  · rcases forgets.sensed with same | stepped
    · exact ⟨0, zero_le 1, .of_sensed same⟩
    · exact ⟨1, le_rfl, .of_incrementAnsn stepped⟩

end Advances

end RoutingProtocol

/-- Whether a step erases a selector without a step of the sequence number. -/
def LosesSelector (node : RoutingProtocol) : Action -> Prop
  | .expire time (.link neighborIfaceAddr) => (node.passTo time).losesSelector neighborIfaceAddr
  | _ => False

/-- The sequence number steps with every change of the selectors, but for a neighbour that is lost. -/
theorem advances_step {node next : RoutingProtocol} {action : Action} (step : protocol.Step node action next)
    (keeps : ¬LosesSelector node action) : ∃ steps ≤ 3, RoutingProtocol.Advances steps node next := by
  cases step with
  | receive mayPass received =>
    obtain ⟨steps, atMost, advances⟩ := RoutingProtocol.advances_recvMessage received
    exact ⟨steps, atMost, advances⟩
  | @expire time expiry mayPass scheduled =>
    have kept : ∀ neighborIfaceAddr, expiry = .link neighborIfaceAddr ->
        ¬({ node with events := node.events.erase (time, expiry) }.passTo time).losesSelector neighborIfaceAddr := by
      rintro neighborIfaceAddr rfl
      exact keeps
    obtain ⟨steps, atMost, advances⟩ := RoutingProtocol.advances_expire kept
    exact ⟨steps, by omega, advances⟩
  | tcTimer mayPass =>
    refine ⟨0, zero_le 3, ?_⟩
    rw [RoutingProtocol.tcTimerExpire]
    split <;> exact .of_eq rfl rfl
  | send mayPass other => exact ⟨0, zero_le 3, .of_eq rfl rfl⟩
  | sendQueued mayPass => exact ⟨0, zero_le 3, .of_eq rfl rfl⟩

end Ns3.Olsr.Protocol
