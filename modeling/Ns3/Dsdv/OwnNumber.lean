import Ns3.Dsdv.Receiving
import Ns3.Dsdv.Sending

/-!
# The sequence number of a node itself

A periodic update sets the node's own sequence number once for each of its interfaces, in the order
of their broadcast addresses. The last one counts: it is the node's own, and the number rises by
two, or it is another's, and the number is two from then on.
-/

namespace Ns3.Dsdv

open Ns3.Network List Option RoutingTable

namespace RoutingProtocol

variable {remote : Ipv4Address -> Prop} {heard : Ipv4Address -> DsdvHeader -> Prop} {told told' : DsdvHeader -> Prop}
  {node next : RoutingProtocol} {now : Nat} {host : Host} {dst : Ipv4Address} {rt : RoutingTableEntry}

/-- An entry of an interface that periodic updates list. -/
structure Listed (node : RoutingProtocol) (dst : Ipv4Address) (rt : RoutingTableEntry) : Prop where
  found : node.routingTable.lookupRoute dst = some rt
  zero : rt.hops = 0
  notLoopback : dst ≠ loopback
  valid : rt.flag = .valid

/-- The entry of `interface1` is the last one listed. -/
def OwnLast (host : Host) (node : RoutingProtocol) : Prop :=
  (∃ rt, node.Listed host.ownBroadcast rt) ∧ ∀ dst rt, node.Listed dst rt -> compare host.ownBroadcast dst ≠ .lt

structure Numbered (host : Host) (node : RoutingProtocol) : Prop where
  others : ∀ dst rt, node.Listed dst rt -> dst ≠ host.ownBroadcast -> rt.seqNo = 0
  own : OwnLast host node ∨ ∀ rt, node.routingTable.lookupRoute host.ownBroadcast = some rt -> rt.seqNo ≤ 2

theorem Sound.notRemote_of_listed (sound : Sound remote heard told node)
    (listed : node.Listed dst rt) : ¬remote dst := by
  obtain own | route := sound.main dst rt listed.found
  · exact own.notRemote
  · exact absurd listed.zero (Nat.ne_of_gt route.positive)

theorem Numbered.of_own (numbered : Numbered host node) (sound : Sound remote heard told node)
    (soundNext : Sound remote heard told' next) (broadcastFree : ¬remote host.ownBroadcast)
    (own : ∀ dst, ¬remote dst -> next.routingTable.lookupRoute dst = node.routingTable.lookupRoute dst) :
    Numbered host next := by
  have before : ∀ dst rt, next.Listed dst rt -> node.Listed dst rt := fun dst rt listed =>
    ⟨(own dst (soundNext.notRemote_of_listed listed)).symm.trans listed.found, listed.zero,
      listed.notLoopback, listed.valid⟩
  have after : ∀ dst rt, node.Listed dst rt -> next.Listed dst rt := fun dst rt listed =>
    ⟨(own dst (sound.notRemote_of_listed listed)).trans listed.found, listed.zero, listed.notLoopback, listed.valid⟩
  refine ⟨fun dst rt listed => numbered.others dst rt (before dst rt listed), ?_⟩
  obtain ⟨⟨rt, listed⟩, last⟩ | low := numbered.own
  · exact .inl ⟨⟨rt, after _ rt listed⟩, fun dst rt listed => last dst rt (before dst rt listed)⟩
  · right
    rw [own _ broadcastFree]
    exact low

/-- The number the node gets from a list of entries. -/
def raisedBy (allRoutes : List (Ipv4Address × RoutingTableEntry)) (seqNo : Nat) : Nat :=
  allRoutes.foldl (fun seqNo i => if i.2.hops = 0 then i.2.seqNo + 2 else seqNo) seqNo

variable {allRoutes : List (Ipv4Address × RoutingTableEntry)}

/-- The last entry of an interface decides, if there is one. -/
theorem raisedBy_cases (sorted : allRoutes.Pairwise fun a b => compare a.1 b.1 = .lt) :
    (∀ seqNo, raisedBy allRoutes seqNo = seqNo) ∨
      ∃ last ∈ allRoutes, last.2.hops = 0 ∧ (∀ i ∈ allRoutes, i.2.hops = 0 -> compare last.1 i.1 ≠ .lt) ∧
        ∀ seqNo, raisedBy allRoutes seqNo = last.2.seqNo + 2 := by
  induction allRoutes using reverseRecOn with
  | nil => exact .inl fun _ => rfl
  | append_singleton front last ih =>
    obtain ⟨frontSorted, _, between⟩ := pairwise_append.mp sorted
    have step : ∀ seqNo, raisedBy (front ++ [last]) seqNo =
        if last.2.hops = 0 then last.2.seqNo + 2 else raisedBy front seqNo := by
      intro seqNo
      rw [raisedBy, foldl_append, foldl_cons, foldl_nil, raisedBy]
    by_cases zero : last.2.hops = 0
    · refine .inr ⟨last, mem_append_right _ (mem_singleton_self last), zero, fun i mem _ => ?_, fun seqNo => ?_⟩
      · obtain earlier | isLast := mem_append.mp mem
        · exact Std.OrientedCmp.not_lt_of_lt (between i earlier last (mem_singleton_self last))
        · obtain rfl := mem_singleton.mp isLast
          simp
      · rw [step, if_pos zero]
    · obtain unchanged | ⟨decisive, mem, decisiveZero, final, value⟩ := ih frontSorted
      · refine .inl fun seqNo => ?_
        rw [step, if_neg zero]
        exact unchanged seqNo
      · refine .inr ⟨decisive, mem_append_left _ mem, decisiveZero, fun i isListed iZero => ?_, fun seqNo => ?_⟩
        · obtain earlier | isLast := mem_append.mp isListed
          · exact final i earlier iZero
          · obtain rfl := mem_singleton.mp isLast
            exact absurd iZero zero
        · rw [step, if_neg zero]
          exact value seqNo

theorem raisedBy_raisedBy (sorted : allRoutes.Pairwise fun a b => compare a.1 b.1 = .lt) (seqNo : Nat) :
    raisedBy allRoutes (raisedBy allRoutes seqNo) = raisedBy allRoutes seqNo := by
  obtain unchanged | ⟨_, _, _, _, value⟩ := raisedBy_cases sorted
  · exact unchanged _
  · rw [value, value]

theorem sorted_getListOfAllRoutes (routes : Routes) (table : RoutingTable) :
    (table.getListOfAllRoutes routes).Pairwise fun a b => compare a.1 b.1 = .lt :=
  Std.TreeMap.ordered_keys_toList.filter _

/-- What a packet being filled has made of the node's own entry. -/
theorem lookupRoute_own_announceEntries (notRemote : ¬remote host.address)
    (broadcastFree : ¬remote host.ownBroadcast) (sound : Sound remote heard told node)
    (listed : ∀ i ∈ allRoutes, node.routingTable.lookupRoute i.1 = some i.2) {state : RoutingProtocol × List DsdvHeader}
    (announcing : Announcing remote heard told' host node state) :
    (allRoutes.foldl (announceEntry host) state).1.routingTable.lookupRoute host.ownBroadcast =
      (state.1.routingTable.lookupRoute host.ownBroadcast).map fun rt =>
        { rt with seqNo := raisedBy allRoutes rt.seqNo } := by
  induction allRoutes generalizing state with
  | nil =>
    rw [foldl_nil]
    cases state.1.routingTable.lookupRoute host.ownBroadcast with
    | none => rfl
    | some rt => rfl
  | cons i allRoutes ih =>
    have isListed := listed i mem_cons_self
    rw [foldl_cons, ih (fun j mem => listed j (mem_cons_of_mem i mem))
      (announcing.announceEntry notRemote broadcastFree isListed sound)]
    rw [announceEntry]
    by_cases zero : i.2.hops = 0
    · rw [if_pos zero, lookupRoute_raiseOwn announcing.sound, if_pos rfl, Option.map_map]
      congr 1
      ext rt
      all_goals simp [raisedBy, zero]
    · rw [if_neg zero]
      simp [raisedBy, zero]

/-- What the updates sent so far have made of the node's own entry. -/
def OwnRaised (host : Host) (allRoutes : List (Ipv4Address × RoutingTableEntry)) (node next : RoutingProtocol) : Prop :=
  next.routingTable.lookupRoute host.ownBroadcast = node.routingTable.lookupRoute host.ownBroadcast ∨
    next.routingTable.lookupRoute host.ownBroadcast =
      (node.routingTable.lookupRoute host.ownBroadcast).map fun rt => { rt with seqNo := raisedBy allRoutes rt.seqNo }

theorem OwnRaised.periodicInterface {removedAddresses : List (Ipv4Address × RoutingTableEntry)}
    {state : RoutingProtocol × List Update} (ownRaised : OwnRaised host allRoutes node state.1)
    (sorted : allRoutes.Pairwise fun a b => compare a.1 b.1 = .lt) (notRemote : ¬remote host.address)
    (broadcastFree : ¬remote host.ownBroadcast) (sound : Sound remote heard told node)
    (listed : ∀ i ∈ allRoutes, node.routingTable.lookupRoute i.1 = some i.2)
    (broadcasting : Broadcasting remote heard told host node state) (iface : Ipv4InterfaceAddress) :
    OwnRaised host allRoutes node (periodicInterface host allRoutes removedAddresses state iface).1 := by
  have now := lookupRoute_own_announceEntries notRemote broadcastFree sound listed broadcasting.announcing
  right
  refine now.trans ?_
  obtain unchanged | raised := ownRaised
  · rw [unchanged]
  · rw [raised, Option.map_map]
    congr 1
    ext rt
    all_goals simp [raisedBy_raisedBy sorted]

theorem ownRaised_sendPeriodicUpdate (refreshed : Refreshed remote heard told host now node (refresh host now node))
    (notRemote : ¬remote host.address) (broadcastFree : ¬remote host.ownBroadcast) :
    OwnRaised host ((refresh host now node).routingTable.getListOfAllRoutes (refresh host now node).routes)
      (refresh host now node) (sendPeriodicUpdate host now node).1 := by
  have listed : ∀ i ∈ (refresh host now node).routingTable.getListOfAllRoutes (refresh host now node).routes,
      (refresh host now node).routingTable.lookupRoute i.1 = some i.2 :=
    fun _ mem => mem_getListOfAllRoutes mem
  have sorted := sorted_getListOfAllRoutes (refresh host now node).routes (refresh host now node).routingTable
  rw [sendPeriodicUpdate]
  split
  case isTrue => exact .inl rfl
  case isFalse =>
    exact (foldlRecOn host.socketAddresses _ (motive := fun state =>
      Broadcasting remote heard told host (refresh host now node) state ∧
        OwnRaised host ((refresh host now node).routingTable.getListOfAllRoutes (refresh host now node).routes)
          (refresh host now node) state.1) ⟨refreshed.sound.broadcasting, .inl rfl⟩
      fun state both iface up =>
        ⟨both.1.periodicInterface refreshed.sound notRemote broadcastFree listed refreshed.gone up,
        both.2.periodicInterface sorted notRemote broadcastFree refreshed.sound listed both.1 iface⟩).2

theorem listed_iff (sound : Sound remote heard told node) :
    node.Listed dst rt ↔ (dst, rt) ∈ node.routingTable.getListOfAllRoutes node.routes ∧ rt.hops = 0 := by
  rw [getListOfAllRoutes, mem_filter, Std.TreeMap.mem_toList_iff_getElem?_eq_some]
  constructor
  · intro listed
    have filed := (sound.routed dst rt listed.found).destination
    exact ⟨⟨listed.found, by simp [filed, listed.notLoopback, listed.valid]⟩, listed.zero⟩
  · rintro ⟨⟨found, kept⟩, zero⟩
    have filed := (sound.routed dst rt found).destination
    rw [filed, decide_eq_true_eq] at kept
    exact ⟨found, zero, kept.1, kept.2⟩

/-- Where an entry of another interface is the last one listed, the own one is not. -/
theorem not_ownLast_of_other (sound : Sound remote heard told node) {last : Ipv4Address × RoutingTableEntry}
    (mem : last ∈ node.routingTable.getListOfAllRoutes node.routes) (zero : last.2.hops = 0)
    (final : ∀ i ∈ node.routingTable.getListOfAllRoutes node.routes, i.2.hops = 0 -> compare last.1 i.1 ≠ .lt)
    (other : last.1 ≠ host.ownBroadcast) : ¬OwnLast host node := by
  rintro ⟨⟨rt, listed⟩, ownFinal⟩
  have notBefore := ownFinal last.1 last.2 ((listed_iff sound).mpr ⟨mem, zero⟩)
  have notAfter := final (host.ownBroadcast, rt) ((listed_iff sound).mp listed).1 listed.zero
  cases order : compare host.ownBroadcast last.1 with
  | lt => exact notBefore order
  | eq => exact other (Std.LawfulEqCmp.eq_of_compare order).symm
  | gt => exact notAfter (Std.OrientedCmp.gt_iff_lt.mp order)

/-- The number of the node itself does not fall, from one periodic update to the next. -/
theorem Numbered.raised (numbered : Numbered host node) (sound : Sound remote heard told node)
    (soundNext : Sound remote heard told' next) (broadcastFree : ¬remote host.ownBroadcast)
    (others : ∀ dst, dst ≠ host.ownBroadcast -> next.routingTable.lookupRoute dst = node.routingTable.lookupRoute dst)
    (ownRaised : OwnRaised host (node.routingTable.getListOfAllRoutes node.routes) node next) :
    Numbered host next ∧ ∀ rt, next.routingTable.lookupRoute host.ownBroadcast = some rt ->
      ∃ old, node.routingTable.lookupRoute host.ownBroadcast = some old ∧ old.seqNo ≤ rt.seqNo := by
  have sorted := sorted_getListOfAllRoutes node.routes node.routingTable
  have asBefore : next.routingTable.lookupRoute host.ownBroadcast = node.routingTable.lookupRoute host.ownBroadcast ->
      Numbered host next ∧ ∀ rt, next.routingTable.lookupRoute host.ownBroadcast = some rt ->
        ∃ old, node.routingTable.lookupRoute host.ownBroadcast = some old ∧ old.seqNo ≤ rt.seqNo := by
    intro unchanged
    have same : ∀ dst, next.routingTable.lookupRoute dst = node.routingTable.lookupRoute dst := by
      intro dst
      by_cases isOwn : dst = host.ownBroadcast
      · rw [isOwn]
        exact unchanged
      · exact others dst isOwn
    refine ⟨numbered.of_own sound soundNext broadcastFree fun dst _ => same dst, fun rt found => ?_⟩
    exact ⟨rt, unchanged.symm.trans found, Nat.le_refl _⟩
  obtain unchanged | raised := ownRaised
  · exact asBefore unchanged
  obtain none | ⟨last, mem, zero, final, value⟩ := raisedBy_cases sorted
  · apply asBefore
    rw [raised]
    cases node.routingTable.lookupRoute host.ownBroadcast with
    | none => rfl
    | some rt => simp [none]
  have earlier : ∀ dst rt, next.Listed dst rt ->
      ∃ old, node.Listed dst old ∧ (dst ≠ host.ownBroadcast -> old = rt) := by
    intro dst rt listed
    by_cases isOwn : dst = host.ownBroadcast
    · subst isOwn
      obtain ⟨old, before, rfl⟩ := map_eq_some_iff.mp (raised.symm.trans listed.found)
      exact ⟨old, ⟨before, listed.zero, listed.notLoopback, listed.valid⟩, fun ne => absurd rfl ne⟩
    · have found := (others dst isOwn).symm.trans listed.found
      exact ⟨rt, ⟨found, listed.zero, listed.notLoopback, listed.valid⟩, fun _ => rfl⟩
  have othersZero : ∀ dst rt, next.Listed dst rt -> dst ≠ host.ownBroadcast -> rt.seqNo = 0 := by
    intro dst rt listed ne
    obtain ⟨old, oldListed, same⟩ := earlier dst rt listed
    rw [← same ne]
    exact numbered.others dst old oldListed ne
  have lastListed : node.Listed last.1 last.2 := (listed_iff sound).mpr ⟨mem, zero⟩
  have number : ∀ rt, next.routingTable.lookupRoute host.ownBroadcast = some rt ->
      ∃ old, node.routingTable.lookupRoute host.ownBroadcast = some old ∧ rt.seqNo = last.2.seqNo + 2 := by
    intro rt found
    obtain ⟨old, before, rfl⟩ := map_eq_some_iff.mp (raised.symm.trans found)
    exact ⟨old, before, value old.seqNo⟩
  by_cases isOwn : last.1 = host.ownBroadcast
  · refine ⟨⟨othersZero, .inl ⟨?_, fun dst rt listed => ?_⟩⟩, fun rt found => ?_⟩
    · have ownNow : next.routingTable.lookupRoute host.ownBroadcast = some { last.2 with
          seqNo := raisedBy (node.routingTable.getListOfAllRoutes node.routes) last.2.seqNo } := by
        rw [raised, ← isOwn, lastListed.found, map_some]
      exact ⟨_, ownNow, lastListed.zero, isOwn ▸ lastListed.notLoopback, lastListed.valid⟩
    · obtain ⟨old, oldListed, _⟩ := earlier dst rt listed
      rw [← isOwn]
      exact final (dst, old) ((listed_iff sound).mp oldListed).1 oldListed.zero
    · obtain ⟨old, before, equal⟩ := number rt found
      rw [← isOwn, lastListed.found] at before
      cases before
      exact ⟨last.2, isOwn ▸ lastListed.found, by omega⟩
  · have low := numbered.own.resolve_left (not_ownLast_of_other sound mem zero final isOwn)
    have zeroSeqNo := numbered.others last.1 last.2 lastListed isOwn
    refine ⟨⟨othersZero, .inr fun rt found => ?_⟩, fun rt found => ?_⟩
    · obtain ⟨_, _, equal⟩ := number rt found
      omega
    · obtain ⟨old, before, equal⟩ := number rt found
      have bound := low old before
      exact ⟨old, before, by omega⟩

/-- A node that has only entries of its own, none of whose numbers was raised yet. -/
structure Started (remote : Ipv4Address -> Prop) (node : RoutingProtocol) : Prop where
  routed : ∀ dst rt, node.routingTable.lookupRoute dst = some rt -> Routed node.routes node.nextRoute dst rt
  own : ∀ dst rt, node.routingTable.lookupRoute dst = some rt -> Own remote node.routes dst rt ∧ rt.seqNo = 0
  adv : ∀ dst, node.advRoutingTable.lookupRoute dst = none

theorem lookupRoute_empty (dst : Ipv4Address) : lookupRoute ∅ dst = none :=
  Std.TreeMap.getElem?_emptyc

theorem started_setIpv4 (notRemote : ¬remote loopback) : Started remote setIpv4 := by
  have filed : ∀ dst rt, setIpv4.routingTable.lookupRoute dst = some rt ->
      loopback = dst ∧ rt = ⟨0, 0, maximumSimulationTime, 0, .invalid, false⟩ := by
    intro dst rt found
    rw [setIpv4, lookupRoute_addRoute] at found
    rw [lookupRoute_empty] at found
    split at found
    case isTrue same => exact ⟨same, (some.inj found).symm⟩
    case isFalse => cases found
  refine ⟨fun dst rt found => ?_, fun dst rt found => ?_, lookupRoute_empty⟩
  · obtain ⟨rfl, rfl⟩ := filed dst rt found
    exact ⟨Nat.one_pos, rfl⟩
  · obtain ⟨rfl, rfl⟩ := filed dst rt found
    exact ⟨⟨notRemote, rfl, rfl⟩, rfl⟩

theorem Started.notifyInterfaceUp (started : Started remote node) {iface : Ipv4InterfaceAddress}
    (notRemote : ¬remote iface.getBroadcast) : Started remote (node.notifyInterfaceUp iface) := by
  let routes := (node.newRoute iface.getBroadcast iface.getBroadcast).routes
  let added : RoutingTableEntry := ⟨0, 0, maximumSimulationTime, node.nextRoute, .valid, false⟩
  have route : routes node.nextRoute = ⟨iface.getBroadcast, iface.getBroadcast⟩ := Function.update_self _ _ _
  have filed : added.getDestination routes = iface.getBroadcast := congrArg Ipv4Route.destination route
  have lookup : ∀ dst rt, (node.notifyInterfaceUp iface).routingTable.lookupRoute dst = some rt ->
      node.routingTable.lookupRoute dst = some rt ∨ iface.getBroadcast = dst ∧ rt = added := by
    intro dst rt found
    change (addRoute routes node.routingTable added).lookupRoute dst = some rt at found
    rw [lookupRoute_addRoute, filed] at found
    split at found
    case isFalse => exact .inl found
    case isTrue same =>
      cases before : node.routingTable.lookupRoute dst with
      | none =>
        rw [before] at found
        exact .inr ⟨same, (some.inj found).symm⟩
      | some old =>
        rw [before] at found
        exact .inl found
  refine ⟨fun dst rt found => ?_, fun dst rt found => ?_, started.adv⟩
  · obtain before | ⟨rfl, rfl⟩ := lookup dst rt found
    · exact (started.routed dst rt before).newRoute
    · exact ⟨Nat.lt_succ_self _, filed⟩
  · obtain before | ⟨rfl, rfl⟩ := lookup dst rt found
    · obtain ⟨own, zero⟩ := started.own dst rt before
      exact ⟨⟨own.notRemote, own.zero, (getNextHop_newRoute (started.routed dst rt before)).trans own.itself⟩, zero⟩
    · exact ⟨⟨notRemote, rfl, congrArg Ipv4Route.gateway route⟩, rfl⟩

theorem started_start (notLoopback : ¬remote loopback)
    (broadcastsFree : ∀ iface ∈ host.socketAddresses, ¬remote iface.getBroadcast) : Started remote (start host) :=
  foldlRecOn host.socketAddresses RoutingProtocol.notifyInterfaceUp (started_setIpv4 notLoopback)
    fun _ started iface up => started.notifyInterfaceUp (broadcastsFree iface up)

theorem Started.sound (started : Started remote node) : Sound remote heard told node := by
  refine ⟨started.routed, fun dst rt found => .inl (started.own dst rt found).1, fun dst rt found => ?_⟩
  cases (started.adv dst).symm.trans found

theorem Started.numbered (started : Started remote node) : Numbered host node := by
  refine ⟨fun dst rt listed _ => (started.own dst rt listed.found).2, .inr fun rt found => ?_⟩
  rw [(started.own _ rt found).2]
  exact Nat.zero_le 2

end RoutingProtocol

end Ns3.Dsdv
