import Ns3.Dsdv.RouteInvariant

/-!
# Sending updates

What a node tells of a destination is no better than what its own entry leads to be told.
-/

namespace Ns3.Dsdv

open Ns3.Network List Option RoutingTable

namespace RoutingProtocol

variable {remote : Ipv4Address -> Prop} {heard : Ipv4Address -> DsdvHeader -> Prop} {told told' : DsdvHeader -> Prop}
  {node middle next : RoutingProtocol} {now : Nat} {host : Host} {dst other : Ipv4Address} {rt rt' : RoutingTableEntry}
  {header : DsdvHeader} {packet : List DsdvHeader} {updates : List Update}

/-- No entry is new to the main table, no sequence number falls, and the entries of the node itself
stay. -/
structure Shrinks (remote : Ipv4Address -> Prop) (node next : RoutingProtocol) : Prop where
  own : ∀ dst, ¬remote dst -> next.routingTable.lookupRoute dst = node.routingTable.lookupRoute dst
  kept : ∀ dst rt', next.routingTable.lookupRoute dst = some rt' ->
    ∃ rt, node.routingTable.lookupRoute dst = some rt ∧ rt.seqNo ≤ rt'.seqNo

theorem Shrinks.refl (node : RoutingProtocol) : Shrinks remote node node :=
  ⟨fun _ _ => rfl, fun _ rt found => ⟨rt, found, Nat.le_refl _⟩⟩

theorem Shrinks.trans (first : Shrinks remote node middle) (second : Shrinks remote middle next) :
    Shrinks remote node next := by
  refine ⟨fun dst notRemote => (second.own dst notRemote).trans (first.own dst notRemote), fun dst rt' found => ?_⟩
  obtain ⟨between, foundBetween, le⟩ := second.kept dst rt' found
  obtain ⟨rt, foundFirst, le'⟩ := first.kept dst between foundBetween
  exact ⟨rt, foundFirst, Nat.le_trans le' le⟩

theorem Shrinks.rise (shrinks : Shrinks remote node next) (found : node.routingTable.lookupRoute dst = some rt)
    (found' : next.routingTable.lookupRoute dst = some rt') : rt.seqNo ≤ rt'.seqNo := by
  obtain ⟨old, before, le⟩ := shrinks.kept dst rt' found'
  cases found.symm.trans before
  exact le

theorem Refiled.shrinks (refiled : Refiled remote heard node next) : Shrinks remote node next := by
  refine ⟨refiled.own, fun dst rt' found => ?_⟩
  obtain before | ⟨old, _, before, _⟩ := refiled.main dst rt' found
  · exact ⟨rt', before, Nat.le_refl _⟩
  · exact ⟨old, before, refiled.seqNo_le before found⟩

theorem Sound.tell (sound : Sound remote heard told node) (added : DsdvHeader)
    (only : ∀ other, told' other -> told other ∨ other = added)
    (bound : ∀ rt, node.routingTable.lookupRoute added.dst = some rt -> remote added.dst -> added.dstSeqno % 2 ≠ 1 ->
      NoBetter added.dstSeqno added.hopCount rt.seqNo (rt.hops + 1)) : Sound remote heard told' node := by
  refine ⟨sound.routed, fun dst rt found => ?_, sound.adv⟩
  obtain own | route := sound.main dst rt found
  · exact .inl own
  · refine .inr ⟨route.remote, route.finite, route.positive, route.backed, fun other isTold named finite => ?_⟩
    obtain before | rfl := only other isTold
    · exact route.notBelow other before named finite
    · subst named
      exact bound rt found route.remote finite

/-- A header a node may send: of itself or of another node, and never without a hop. -/
structure Sendable (remote : Ipv4Address -> Prop) (host : Host) (header : DsdvHeader) : Prop where
  positive : 0 < header.hopCount
  named : header.dst = host.address ∨ remote header.dst

theorem refiled_deleteIpv4Event (dst : Ipv4Address) : Refiled remote heard node (node.deleteIpv4Event dst) := by
  rw [deleteIpv4Event]
  split
  case isTrue => exact .of_tables rfl rfl rfl rfl
  case isFalse => exact .of_tables rfl rfl rfl rfl

theorem lookupRoute_useAdvertised (routed : Routed node.routes node.nextRoute dst rt) (other : Ipv4Address) :
    (node.useAdvertised rt).routingTable.lookupRoute other =
      if dst = other ∧ rt.seqNo % 2 = 0 then
        (node.routingTable.lookupRoute other).map fun _ => { rt with flag := .valid, entriesChanged := false }
      else node.routingTable.lookupRoute other := by
  have filed :
    ({ rt with flag := .valid, entriesChanged := false } :
    RoutingTableEntry).getDestination node.routes = dst :=
    routed.destination
  rw [useAdvertised]
  by_cases even : rt.seqNo % 2 = 0
  · rw [if_pos even, lookupRoute_update, filed]
    by_cases same : dst = other
    · rw [if_pos same, if_pos ⟨same, even⟩]
    · rw [if_neg same, if_neg fun both => same both.1]
  · rw [if_neg even, if_neg fun both => even both.2]

section

variable (pending : Pending remote heard node dst rt)
include pending

theorem refiled_useAdvertised : Refiled remote heard node (node.useAdvertised rt) := by
  have advNow : ∀ other, (node.useAdvertised rt).advRoutingTable.lookupRoute other =
      if dst = other then none else node.advRoutingTable.lookupRoute other := by
    intro other
    rw [← pending.routed.destination]
    exact lookupRoute_deleteRoute
  refine ⟨rfl, rfl, fun other notRemote => ?_, fun other rt' found => ?_, fun other rt' found => .inl ?_⟩
  · rw [lookupRoute_useAdvertised pending.routed, if_neg]
    rintro ⟨rfl, _⟩
    exact notRemote pending.remote
  · rw [lookupRoute_useAdvertised pending.routed] at found
    split at found
    case isFalse => exact .inl found
    case isTrue both =>
      obtain ⟨rfl, _⟩ := both
      obtain ⟨old, before, rfl⟩ := map_eq_some_iff.mp found
      refine .inr ⟨old, rt, before, pending, ⟨rfl, rfl, rfl⟩, fun also alsoFound => ?_⟩
      rw [advNow, if_pos rfl] at alsoFound
      cases alsoFound
  · rw [advNow] at found
    split at found
    case isTrue => cases found
    case isFalse => exact found

/-- Used, an advertised entry is what the main table says of its destination, if it says anything. -/
theorem same_of_useAdvertised
    (found : (node.useAdvertised rt).routingTable.lookupRoute dst = some rt') : Same rt' rt := by
  rw [lookupRoute_useAdvertised pending.routed] at found
  split at found
  case isTrue =>
    obtain ⟨_, _, rfl⟩ := map_eq_some_iff.mp found
    exact ⟨rfl, rfl, rfl⟩
  case isFalse odd =>
    obtain ⟨_, finite, _⟩ := pending.paired rt' found
    exact absurd ⟨rfl, by omega⟩ odd

theorem Pending.of_refiled (refiled : Refiled remote heard node next)
    (unchanged : ∀ main, next.routingTable.lookupRoute dst = some main ->
      node.routingTable.lookupRoute dst = some main ∨ Same main rt ∧ node.routingTable.lookupRoute dst ≠ none) :
    Pending remote heard next dst rt := by
  refine ⟨pending.remote, pending.positive, ?_, fun main found => ?_⟩
  · rw [refiled.routes, refiled.nextRoute]
    exact pending.routed
  · rw [refiled.routes]
    obtain before | ⟨same, present⟩ := unchanged main found
    · exact pending.paired main before
    · obtain ⟨old, before⟩ := ne_none_iff_exists'.mp present
      obtain ⟨_, finite, _, backed⟩ := pending.paired old before
      rw [same.seqNo, same.hops]
      exact ⟨same.ipv4Route.symm, finite, .refl _ _, backed⟩

/-- Entries of one table stay pending while others of it are used. -/
theorem Pending.useAdvertised (used : Pending remote heard node other rt')
    (unique : other = dst -> rt' = rt) : Pending remote heard (node.useAdvertised rt') dst rt := by
  refine pending.of_refiled (refiled_useAdvertised used) fun main found => ?_
  have changed := found
  rw [lookupRoute_useAdvertised used.routed] at changed
  split at changed
  case isFalse => exact .inl changed
  case isTrue both =>
    obtain ⟨rfl, _⟩ := both
    obtain rfl := unique rfl
    obtain ⟨old, before, _⟩ := map_eq_some_iff.mp changed
    exact .inr ⟨same_of_useAdvertised used found, by simp [before]⟩

theorem Pending.deleteIpv4Event (addr : Ipv4Address) : Pending remote heard (node.deleteIpv4Event addr) dst rt := by
  refine pending.of_refiled (refiled_deleteIpv4Event addr) fun main found => .inl ?_
  rw [RoutingProtocol.deleteIpv4Event] at found
  split at found
  case isTrue => exact found
  case isFalse => exact found

end

theorem Sound.narrow (sound : Sound remote heard told node) (only : ∀ other, told' other -> told other) :
    Sound remote heard told' node := by
  refine ⟨sound.routed, fun dst rt found => ?_, sound.adv⟩
  obtain own | route := sound.main dst rt found
  · exact .inl own
  · exact .inr ⟨route.remote, route.finite, route.positive, route.backed,
      fun other isTold => route.notBelow other (only other isTold)⟩

/-- Entries listed from a table, each under its destination. -/
def Unique (allRoutes : List (Ipv4Address × RoutingTableEntry)) : Prop :=
  ∀ i ∈ allRoutes, ∀ j ∈ allRoutes, i.1 = j.1 -> i.2 = j.2

theorem unique_getListOfAllRoutes (routes : Routes) (table : RoutingTable) :
    Unique (table.getListOfAllRoutes routes) := by
  intro i iListed j jListed same
  have found := mem_getListOfAllRoutes iListed
  rw [same, mem_getListOfAllRoutes jListed] at found
  exact (some.inj found).symm

/-- A packet being filled with the advertised entries. -/
structure Telling (remote : Ipv4Address -> Prop) (heard : Ipv4Address -> DsdvHeader -> Prop) (told : DsdvHeader -> Prop)
    (host : Host) (allRoutes : List (Ipv4Address × RoutingTableEntry)) (node : RoutingProtocol)
    (state : RoutingProtocol × List DsdvHeader) : Prop where
  sound : Sound remote heard (fun header => told header ∨ header ∈ state.2) state.1
  shrinks : Shrinks remote node state.1
  pending : ∀ i ∈ allRoutes, Pending remote heard state.1 i.1 i.2
  sendable : ∀ header ∈ state.2, Sendable remote host header

variable {allRoutes : List (Ipv4Address × RoutingTableEntry)} {state : RoutingProtocol × List DsdvHeader}
  {i : Ipv4Address × RoutingTableEntry}

theorem Telling.triggerEntry
    (telling : Telling remote heard told host allRoutes node state) (unique : Unique allRoutes)
    (listed : i ∈ allRoutes) :
    Telling remote heard told host allRoutes node (triggerEntry state i) := by
  have pending := telling.pending i listed
  have filed : i.2.getDestination state.1.routes = i.1 := pending.routed.destination
  rw [RoutingProtocol.triggerEntry]
  split
  case isFalse => exact telling
  case isTrue =>
    rw [filed]
    have eventGone : Refiled remote heard state.1 (state.1.deleteIpv4Event i.1) := refiled_deleteIpv4Event i.1
    have pendingNow := pending.deleteIpv4Event i.1
    have used := refiled_useAdvertised pendingNow
    have sound := (telling.sound.refiled eventGone).refiled used
    refine ⟨?_, telling.shrinks.trans (eventGone.shrinks.trans used.shrinks),
      fun j jListed => ?_, fun header isNew => ?_⟩
    · refine sound.tell ⟨i.1, i.2.seqNo, i.2.hops + 1⟩ (fun other isTold => ?_) fun rt found _ _ => ?_
      · rw [mem_cons] at isTold
        obtain before | rfl | before := isTold
        · exact .inl (.inl before)
        · exact .inr rfl
        · exact .inl (.inr before)
      · have same := same_of_useAdvertised pendingNow found
        rw [same.seqNo, same.hops]
        exact .refl _ _
    · exact ((telling.pending j jListed).deleteIpv4Event i.1).useAdvertised pendingNow fun same =>
        unique i listed j jListed same
    · obtain rfl | before := mem_cons.mp isNew
      · exact ⟨Nat.succ_pos _, .inr pending.remote⟩
      · exact telling.sendable header before

/-- Updates being sent through the interfaces. -/
structure Sending (remote : Ipv4Address -> Prop) (heard : Ipv4Address -> DsdvHeader -> Prop) (told : DsdvHeader -> Prop)
    (host : Host) (node : RoutingProtocol) (state : RoutingProtocol × List Update) : Prop where
  sound : Sound remote heard (fun header => told header ∨ ∃ update ∈ state.2, header ∈ update.headers) state.1
  shrinks : Shrinks remote node state.1
  sent : ∀ update ∈ state.2, host.isLocal update.sender ∧ ∀ header ∈ update.headers, Sendable remote host header

variable {iface : Ipv4InterfaceAddress}

theorem Host.isLocal_of_mem (mem : iface ∈ host.socketAddresses) : host.isLocal iface.localAddress := by
  simp only [Host.isLocal, List.any_eq_true, decide_eq_true_eq]
  exact ⟨iface, mem, rfl⟩

theorem Sending.triggerInterface {state : RoutingProtocol × List Update}
    (sending : Sending remote heard told host node state)
    (pending : ∀ i ∈ allRoutes, Pending remote heard state.1 i.1 i.2)
    (unique : Unique allRoutes) (notRemote : ¬remote host.address) (up : iface ∈ host.socketAddresses) :
    Sending remote heard told host node (triggerInterface host allRoutes state iface) ∧
      ∀ i ∈ allRoutes, Pending remote heard (triggerInterface host allRoutes state iface).1 i.1 i.2 := by
  have start : Telling remote heard (fun header => told header ∨ ∃ update ∈ state.2, header ∈ update.headers) host
      allRoutes node (state.1, []) :=
    ⟨sending.sound.narrow fun other isTold => isTold.resolve_right not_mem_nil, sending.shrinks, pending,
      fun _ mem => nomatch mem⟩
  have telling :=
    foldlRecOn allRoutes RoutingProtocol.triggerEntry
      (motive := Telling remote heard _ host allRoutes node)
    start fun _ telling i listed => telling.triggerEntry unique listed
  rw [RoutingProtocol.triggerInterface]
  dsimp only
  generalize allRoutes.foldl RoutingProtocol.triggerEntry (state.1, []) = filled at telling ⊢
  split
  case isTrue empty =>
    rw [List.isEmpty_iff] at empty
    refine ⟨⟨telling.sound.narrow fun other isTold => .inl isTold, telling.shrinks, sending.sent⟩, telling.pending⟩
  case isFalse =>
    refine ⟨⟨?_, telling.shrinks, fun update mem => ?_⟩, telling.pending⟩
    · generalize (filled.1.routingTable.lookupRoute host.ownBroadcast).getD ⟨0, 0, 0, 0, .valid, false⟩ = temp2
      refine telling.sound.tell ⟨host.address, temp2.seqNo, temp2.hops + 1⟩ (fun other isTold => ?_) fun _ _ isRemote =>
        absurd isRemote notRemote
      simp only [mem_append, mem_singleton] at isTold
      obtain before | ⟨update, before | rfl, inside⟩ := isTold
      · exact .inl (.inl (.inl before))
      · exact .inl (.inl (.inr ⟨update, before, inside⟩))
      · obtain rfl | inside := mem_cons.mp inside
        · exact .inr rfl
        · exact .inl (.inr inside)
    · obtain before | isNew := mem_append.mp mem
      · exact sending.sent update before
      · obtain rfl := mem_singleton.mp isNew
        refine ⟨Host.isLocal_of_mem up, fun header inside => ?_⟩
        obtain rfl | inside := mem_cons.mp inside
        · exact ⟨Nat.succ_pos _, .inl rfl⟩
        · exact telling.sendable header inside

section

variable (sound : Sound remote heard told node)
include sound

theorem Sound.sendTriggeredUpdate (notRemote : ¬remote host.address) :
    Sending remote heard told host node (sendTriggeredUpdate host node) := by
  have start : Sending remote heard told host node (node, []) := by
    refine ⟨sound.narrow fun other isTold => ?_, .refl node, fun _ mem => nomatch mem⟩
    obtain before | ⟨_, mem, _⟩ := isTold
    · exact before
    · cases mem
  have pending : ∀ i ∈ node.advRoutingTable.getListOfAllRoutes node.routes, Pending remote heard node i.1 i.2 :=
    fun i listed => sound.adv i.1 i.2 (mem_getListOfAllRoutes listed)
  have unique := unique_getListOfAllRoutes node.routes node.advRoutingTable
  rw [RoutingProtocol.sendTriggeredUpdate]
  generalize node.advRoutingTable.getListOfAllRoutes node.routes = allRoutes at pending unique ⊢
  exact (foldlRecOn host.socketAddresses (triggerInterface host allRoutes) (motive := fun state =>
    Sending remote heard told host node state ∧ ∀ i ∈ allRoutes, Pending remote heard state.1 i.1 i.2) ⟨start, pending⟩
    fun _ both _ up => both.1.triggerInterface both.2 unique notRemote up).1

theorem Sound.route_of_removable (found : node.routingTable.lookupRoute dst = some rt)
    (removable : RoutingTable.Removable node.routes node.routingTable rt) :
    Route remote heard told node.routes dst rt := by
  obtain own | route := sound.main dst rt found
  · exfalso
    obtain pos | ⟨viaDst, via, viaFound, pos, through⟩ := removable
    · exact absurd own.zero (Nat.ne_of_gt pos)
    · apply own.notRemote
      obtain viaOwn | viaRoute := sound.main viaDst via viaFound
      · exact absurd viaOwn.zero (Nat.ne_of_gt pos)
      · rw [← own.itself, through, (sound.routed viaDst via viaFound).destination]
        exact viaRoute.remote
  · exact route

theorem Sound.refiled_purge (holddownTime now : Nat) :
    Refiled remote heard node
      { node with routingTable := (node.routingTable.purge node.routes holddownTime now).1 } := by
  have purged : RoutingTable.Purged node.routes node.routingTable
    (node.routingTable.purge node.routes holddownTime now) :=
    purged_purge holddownTime now
  refine ⟨rfl, rfl, fun dst notRemote =>
    ?_, fun dst rt found => .inl (purged.kept dst rt found), fun _ _ found => .inl found⟩
  cases now' : (node.routingTable.purge node.routes holddownTime now).1.lookupRoute dst with
  | some rt => exact (purged.kept dst rt now').symm
  | none =>
    cases found : node.routingTable.lookupRoute dst with
    | none => rfl
    | some rt => exact absurd (sound.route_of_removable found (purged.removable dst rt found now')).remote notRemote

/-- An entry a purge has removed was a route. -/
structure Gone (remote : Ipv4Address -> Prop) (node : RoutingProtocol)
    (i : Ipv4Address × RoutingTableEntry) : Prop where
  remote : remote i.1
  finite : i.2.seqNo % 2 ≠ 1
  positive : 0 < i.2.hops
  routed : Routed node.routes node.nextRoute i.1 i.2

theorem Sound.gone_of_purge (holddownTime now : Nat)
    (removed : i ∈ (node.routingTable.purge node.routes holddownTime now).2.toList) :
    Gone remote node i ∧ (node.routingTable.purge node.routes holddownTime now).1.lookupRoute i.1 = none := by
  have purged : RoutingTable.Purged node.routes node.routingTable
    (node.routingTable.purge node.routes holddownTime now) :=
    purged_purge holddownTime now
  obtain ⟨found, gone⟩ := (purged.removed i.1 i.2).mp (Std.TreeMap.mem_toList_iff_getElem?_eq_some.mp removed)
  have route := sound.route_of_removable found (purged.removable i.1 i.2 found gone)
  exact ⟨⟨route.remote, route.finite, route.positive, sound.routed i.1 i.2 found⟩, gone⟩

theorem Sound.routeOutput (now : Nat) :
    Sound remote heard told (routeOutput host now node) ∧ Shrinks remote node (routeOutput host now node) := by
  have purge := sound.refiled_purge host.holddownTime now
  have gone := fun i => sound.gone_of_purge host.holddownTime now (i := i)
  rw [RoutingProtocol.routeOutput]
  dsimp only
  generalize node.routingTable.purge node.routes host.holddownTime now = purged at purge gone ⊢
  have tables : ∀ advTable scheduled,
      Sound remote heard told { node with routingTable := purged.1, advRoutingTable := advTable } ->
      Sound remote heard told { node with
        routingTable := purged.1, advRoutingTable := advTable, scheduled := scheduled } :=
    fun _ _ holds => holds.refiled (.of_tables rfl rfl rfl rfl)
  refine ⟨tables _ _ ?_, ⟨purge.shrinks.own, purge.shrinks.kept⟩⟩
  refine foldlRecOn purged.2.toList _ (motive := fun table =>
    Sound remote heard told { node with routingTable := purged.1, advRoutingTable := table }) (sound.refiled purge) ?_
  intro table holds i removed
  obtain ⟨entry, absent⟩ := gone i removed
  refine holds.refiled ⟨rfl, rfl, fun _ _ => rfl, fun _ _ found => .inl found, fun dst rt found => ?_⟩
  let lost := { i.2 with entriesChanged := true, seqNo := i.2.seqNo + 1 }
  have filed : lost.getDestination node.routes = i.1 := entry.routed.destination
  change (addRoute _ table _).lookupRoute dst = _ at found
  rw [lookupRoute_addRoute, filed] at found
  split at found
  case isFalse => exact .inl found
  case isTrue same =>
    subst same
    cases before : table.lookupRoute i.1 with
    | some old =>
      rw [before] at found
      exact .inl found
    | none =>
      rw [before] at found
      cases found
      exact .inr (.inr ⟨absent, entry.remote, entry.positive, entry.routed.created, entry.routed.destination⟩)

theorem Sound.mergeTriggerPeriodicUpdates :
    Sound remote heard told node.mergeTriggerPeriodicUpdates ∧ Shrinks remote node node.mergeTriggerPeriodicUpdates ∧
      node.mergeTriggerPeriodicUpdates.routes = node.routes ∧
        node.mergeTriggerPeriodicUpdates.nextRoute = node.nextRoute := by
  have pending : ∀ i ∈ node.advRoutingTable.getListOfAllRoutes node.routes, Pending remote heard node i.1 i.2 :=
    fun i listed => sound.adv i.1 i.2 (mem_getListOfAllRoutes listed)
  have unique := unique_getListOfAllRoutes node.routes node.advRoutingTable
  rw [RoutingProtocol.mergeTriggerPeriodicUpdates]
  generalize node.advRoutingTable.getListOfAllRoutes node.routes = allRoutes at pending unique ⊢
  have merged := foldlRecOn allRoutes mergeEntry (motive := fun next => Sound remote heard told next ∧
    Shrinks remote node next ∧ next.routes = node.routes ∧ next.nextRoute = node.nextRoute ∧
      ∀ i ∈ allRoutes, Pending remote heard next i.1 i.2)
    ⟨sound, .refl node, rfl, rfl, pending⟩ ?_
  · exact ⟨merged.1, merged.2.1, merged.2.2.1, merged.2.2.2.1⟩
  · rintro next ⟨nextSound, shrinks, routes, nextRoute, nextPending⟩ i listed
    rw [mergeEntry]
    split
    case isFalse => exact ⟨nextSound, shrinks, routes, nextRoute, nextPending⟩
    case isTrue =>
      have used := refiled_useAdvertised (nextPending i listed)
      refine ⟨nextSound.refiled used, shrinks.trans used.shrinks, used.routes.trans routes,
        used.nextRoute.trans nextRoute,
        fun j jListed => ?_⟩
      exact (nextPending j jListed).useAdvertised (nextPending i listed) fun same => unique i listed j jListed same

theorem lookupRoute_raiseOwn (seqNo : Nat) (dst : Ipv4Address) :
    (raiseOwn host node seqNo).routingTable.lookupRoute dst =
      if host.ownBroadcast = dst then (node.routingTable.lookupRoute dst).map fun rt => { rt with seqNo }
      else node.routingTable.lookupRoute dst := by
  rw [raiseOwn]
  split
  case h_1 ownEntry found =>
    have filed : ({ ownEntry with seqNo } : RoutingTableEntry).getDestination node.routes = host.ownBroadcast :=
      (sound.routed _ _ found).destination
    rw [lookupRoute_update, filed]
    split
    case isTrue same => rw [← same, found, map_some, map_some]
    case isFalse => rfl
  case h_2 absent =>
    split
    case isTrue same => rw [← same, absent, map_none]
    case isFalse => rfl

theorem Sound.raiseOwn (notRemote : ¬remote host.ownBroadcast) (seqNo : Nat) :
    Sound remote heard told (raiseOwn host node seqNo) ∧ (raiseOwn host node seqNo).routes = node.routes := by
  have lookup : ∀ dst, (RoutingProtocol.raiseOwn host node seqNo).routingTable.lookupRoute dst =
      if host.ownBroadcast = dst then (node.routingTable.lookupRoute dst).map fun rt => { rt with seqNo }
      else node.routingTable.lookupRoute dst := lookupRoute_raiseOwn sound seqNo
  have shape : (RoutingProtocol.raiseOwn host node seqNo).advRoutingTable = node.advRoutingTable ∧
      (RoutingProtocol.raiseOwn host node seqNo).routes = node.routes ∧
      (RoutingProtocol.raiseOwn host node seqNo).nextRoute = node.nextRoute := by
    rw [RoutingProtocol.raiseOwn]
    split
    case h_1 => exact ⟨rfl, rfl, rfl⟩
    case h_2 => exact ⟨rfl, rfl, rfl⟩
  generalize RoutingProtocol.raiseOwn host node seqNo = raised at lookup shape ⊢
  obtain ⟨advSame, routes, nextRoute⟩ := shape
  refine ⟨⟨fun dst rt found => ?_, fun dst rt found => ?_, fun dst rt found => ?_⟩, routes⟩
  · rw [routes, nextRoute]
    rw [lookup] at found
    split at found
    case isTrue =>
      obtain ⟨old, before, rfl⟩ := map_eq_some_iff.mp found
      exact ⟨(sound.routed dst old before).created, (sound.routed dst old before).destination⟩
    case isFalse => exact sound.routed dst rt found
  · rw [routes]
    rw [lookup] at found
    split at found
    case isTrue same =>
      obtain ⟨old, before, rfl⟩ := map_eq_some_iff.mp found
      obtain own | route := sound.main dst old before
      · exact .inl ⟨own.notRemote, own.zero, own.itself⟩
      · exact absurd (same ▸ route.remote) notRemote
    case isFalse => exact sound.main dst rt found
  · rw [advSame] at found
    have pending := sound.adv dst rt found
    refine ⟨pending.remote, pending.positive, ?_, fun main mainFound => ?_⟩
    · rw [routes, nextRoute]
      exact pending.routed
    · rw [lookup, if_neg] at mainFound
      · rw [routes]
        exact pending.paired main mainFound
      · rintro rfl
        exact notRemote pending.remote

end

/-- A packet being filled with the entries of the main table. -/
structure Announcing (remote : Ipv4Address -> Prop) (heard : Ipv4Address -> DsdvHeader -> Prop)
    (told : DsdvHeader -> Prop)
    (host : Host) (node : RoutingProtocol) (state : RoutingProtocol × List DsdvHeader) : Prop where
  sound : Sound remote heard (fun header => told header ∨ header ∈ state.2) state.1
  routes : state.1.routes = node.routes
  others : ∀ dst, dst ≠ host.ownBroadcast -> state.1.routingTable.lookupRoute dst = node.routingTable.lookupRoute dst
  sendable : ∀ header ∈ state.2, Sendable remote host header

section

variable (announcing : Announcing remote heard told host node state)
include announcing

theorem Announcing.tell
    (added : DsdvHeader) (sendable : Sendable remote host added)
    (bound : ∀ rt, state.1.routingTable.lookupRoute added.dst = some rt -> remote added.dst -> added.dstSeqno % 2 ≠ 1 ->
      NoBetter added.dstSeqno added.hopCount rt.seqNo (rt.hops + 1)) :
    Announcing remote heard told host node (state.1, added :: state.2) := by
  refine ⟨announcing.sound.tell added (fun other isTold => ?_) bound, announcing.routes, announcing.others,
    fun header isNew => ?_⟩
  · rw [mem_cons] at isTold
    obtain before | rfl | before := isTold
    · exact .inl (.inl before)
    · exact .inr rfl
    · exact .inl (.inr before)
  · obtain rfl | before := mem_cons.mp isNew
    · exact sendable
    · exact announcing.sendable header before

theorem Announcing.announceEntry (notRemote : ¬remote host.address)
    (broadcastFree : ¬remote host.ownBroadcast)
    (listed : node.routingTable.lookupRoute i.1 = some i.2) (sound : Sound remote heard told' node) :
    Announcing remote heard told host node (announceEntry host state i) := by
  rw [RoutingProtocol.announceEntry]
  split
  case isTrue =>
    obtain ⟨raised, routes⟩ := announcing.sound.raiseOwn broadcastFree (i.2.seqNo + 2)
    have others : ∀ dst, dst ≠ host.ownBroadcast ->
        (RoutingProtocol.raiseOwn host state.1 (i.2.seqNo + 2)).routingTable.lookupRoute dst =
          node.routingTable.lookupRoute dst := by
      intro dst ne
      rw [lookupRoute_raiseOwn announcing.sound, if_neg (Ne.symm ne)]
      exact announcing.others dst ne
    have first : Announcing remote heard told host node
      (RoutingProtocol.raiseOwn host state.1 (i.2.seqNo + 2), state.2) :=
      ⟨raised, routes.trans announcing.routes, others, announcing.sendable⟩
    exact first.tell _ ⟨Nat.succ_pos _, .inl rfl⟩ fun _ _ isRemote => absurd isRemote notRemote
  case isFalse pos =>
    obtain own | route := sound.main i.1 i.2 listed
    · exact absurd own.zero pos
    · have filed : i.2.getDestination state.1.routes = i.1 := by
        rw [announcing.routes]
        exact (sound.routed i.1 i.2 listed).destination
      rw [filed]
      refine announcing.tell _ ⟨Nat.succ_pos _, .inr route.remote⟩ fun rt found _ _ => ?_
      have ne : i.1 ≠ host.ownBroadcast := by
        intro same
        exact broadcastFree (same ▸ route.remote)
      cases listed.symm.trans ((announcing.others i.1 ne).symm.trans found)
      exact .refl _ _

theorem Announcing.announceRemoved {removedAddresses : List (Ipv4Address × RoutingTableEntry)}
    (gone : ∀ rm ∈ removedAddresses, Gone remote node rm) :
    Announcing remote heard told host node
      (state.1, removedAddresses.foldl (fun packet rm => removedHeader state.1.routes rm.2 :: packet) state.2) := by
  refine foldlRecOn removedAddresses _
    (motive := fun packet => Announcing remote heard told host node (state.1, packet))
    announcing fun packet holds rm removed => ?_
  have entry := gone rm removed
  refine holds.tell _ ⟨Nat.succ_pos _, .inr ?_⟩ fun _ _ _ odd => ?_
  · rw [removedHeader, announcing.routes, entry.routed.destination]
    exact entry.remote
  · have finite := entry.finite
    simp only [removedHeader] at odd
    omega

end

/-- Updates with the whole main table being sent through the interfaces. -/
structure Broadcasting (remote : Ipv4Address -> Prop) (heard : Ipv4Address -> DsdvHeader -> Prop)
    (told : DsdvHeader -> Prop)
    (host : Host) (node : RoutingProtocol) (state : RoutingProtocol × List Update) : Prop where
  sound : Sound remote heard (fun header => told header ∨ ∃ update ∈ state.2, header ∈ update.headers) state.1
  routes : state.1.routes = node.routes
  others : ∀ dst, dst ≠ host.ownBroadcast -> state.1.routingTable.lookupRoute dst = node.routingTable.lookupRoute dst
  sent : ∀ update ∈ state.2, host.isLocal update.sender ∧ ∀ header ∈ update.headers, Sendable remote host header

theorem Broadcasting.announcing {state : RoutingProtocol × List Update}
    (broadcasting : Broadcasting remote heard told host node state) :
    Announcing remote heard (fun header => told header ∨ ∃ update ∈ state.2, header ∈ update.headers) host node
      (state.1, []) :=
  ⟨broadcasting.sound.narrow fun _ isTold => isTold.resolve_right not_mem_nil, broadcasting.routes, broadcasting.others,
    fun _ mem => nomatch mem⟩

theorem Broadcasting.periodicInterface {state : RoutingProtocol × List Update}
    (broadcasting : Broadcasting remote heard told host node state) (sound : Sound remote heard told node)
    (notRemote : ¬remote host.address) (broadcastFree : ¬remote host.ownBroadcast)
    {removedAddresses : List (Ipv4Address × RoutingTableEntry)}
    (listed : ∀ i ∈ allRoutes, node.routingTable.lookupRoute i.1 = some i.2)
    (gone : ∀ rm ∈ removedAddresses, Gone remote node rm) (up : iface ∈ host.socketAddresses) :
    Broadcasting remote heard told host node (periodicInterface host allRoutes removedAddresses state iface) := by
  have announcing := foldlRecOn allRoutes (RoutingProtocol.announceEntry host)
    (motive := Announcing remote heard _ host node) broadcasting.announcing
    fun _ holds i mem => holds.announceEntry notRemote broadcastFree (listed i mem) sound
  rw [RoutingProtocol.periodicInterface]
  generalize allRoutes.foldl (RoutingProtocol.announceEntry host) (state.1, []) = filled at announcing ⊢
  have full := announcing.announceRemoved gone
  generalize removedAddresses.foldl _ filled.2 = headers at full ⊢
  refine ⟨full.sound.narrow fun header isTold => ?_, full.routes, full.others, fun update mem => ?_⟩
  · simp only [mem_append, mem_singleton] at isTold
    obtain before | ⟨update, before | rfl, inside⟩ := isTold
    · exact .inl (.inl before)
    · exact .inl (.inr ⟨update, before, inside⟩)
    · exact .inr inside
  · obtain before | isNew := mem_append.mp mem
    · exact broadcasting.sent update before
    · obtain rfl := mem_singleton.mp isNew
      exact ⟨Host.isLocal_of_mem up, fun header inside => full.sendable header inside⟩

/-- A node after the purge and the merge a periodic update starts with. -/
structure Refreshed (remote : Ipv4Address -> Prop) (heard : Ipv4Address -> DsdvHeader -> Prop)
    (told : DsdvHeader -> Prop)
    (host : Host) (now : Nat) (node next : RoutingProtocol) : Prop where
  sound : Sound remote heard told next
  shrinks : Shrinks remote node next
  gone : ∀ rm ∈ (node.routingTable.purge node.routes host.holddownTime now).2.toList, Gone remote next rm

theorem Sound.refreshed (sound : Sound remote heard told node) (now : Nat) :
    Refreshed remote heard told host now node (refresh host now node) := by
  have purge := sound.refiled_purge host.holddownTime now
  obtain ⟨merged, shrinks, routes, nextRoute⟩ := (sound.refiled purge).mergeTriggerPeriodicUpdates
  refine ⟨merged, purge.shrinks.trans shrinks, fun rm removed => ?_⟩
  have entry := (sound.gone_of_purge host.holddownTime now removed).1
  refine ⟨entry.remote, entry.finite, entry.positive, ?_⟩
  rw [refresh, routes, nextRoute]
  exact entry.routed

/-- Nothing is sent of a node refreshed yet. -/
theorem Sound.broadcasting (sound : Sound remote heard told node) :
    Broadcasting remote heard told host node (node, []) := by
  refine ⟨sound.narrow fun header isTold => ?_, rfl, fun _ _ => rfl, fun _ mem => nomatch mem⟩
  obtain before | ⟨_, mem, _⟩ := isTold
  · exact before
  · cases mem

theorem Refreshed.sendPeriodicUpdate (refreshed : Refreshed remote heard told host now node (refresh host now node))
    (notRemote : ¬remote host.address) (broadcastFree : ¬remote host.ownBroadcast) :
    Broadcasting remote heard told host (refresh host now node) (sendPeriodicUpdate host now node) := by
  rw [RoutingProtocol.sendPeriodicUpdate]
  split
  case isTrue => exact refreshed.sound.broadcasting
  case isFalse =>
    exact foldlRecOn host.socketAddresses _ (motive := Broadcasting remote heard told host (refresh host now node))
      refreshed.sound.broadcasting
      fun _ holds _ up => holds.periodicInterface refreshed.sound notRemote broadcastFree
        (fun _ listed => mem_getListOfAllRoutes listed) refreshed.gone up

end RoutingProtocol

end Ns3.Dsdv
