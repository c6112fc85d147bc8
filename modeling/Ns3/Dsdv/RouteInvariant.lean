import Ns3.Dsdv.RoutingProtocol

/-!
# What the entries of a node stand for

Every route of the main table is no better than an update heard from its next hop, and no worse than
any the node has told others. An advertised entry shares its route object with the main one, if
there is one, and is at least as good.
-/

namespace Ns3.Dsdv

open Ns3.Network RoutingTable RoutingTableEntry

/-- The second pair of a sequence number and a metric is at least as good as the first. -/
def NoBetter (seqNo hops seqNo' hops' : Nat) : Prop :=
  seqNo < seqNo' ∨ seqNo = seqNo' ∧ hops' ≤ hops

theorem NoBetter.refl (seqNo hops : Nat) : NoBetter seqNo hops seqNo hops :=
  .inr ⟨rfl, Nat.le_refl hops⟩

theorem NoBetter.trans {seqNo hops seqNo' hops' seqNo'' hops'' : Nat} (first : NoBetter seqNo hops seqNo' hops')
    (second : NoBetter seqNo' hops' seqNo'' hops'') : NoBetter seqNo hops seqNo'' hops'' := by
  simp only [NoBetter] at *
  omega

theorem NoBetter.seqNo_le {seqNo hops seqNo' hops' : Nat}
    (noBetter : NoBetter seqNo hops seqNo' hops') : seqNo ≤ seqNo' := by
  simp only [NoBetter] at noBetter
  omega

namespace RoutingProtocol

variable {remote : Ipv4Address -> Prop} {heard : Ipv4Address -> DsdvHeader -> Prop} {told : DsdvHeader -> Prop}
  {node next : RoutingProtocol} {now : Nat} {dst other sender : Ipv4Address} {rt advEntry : RoutingTableEntry}
  {header : DsdvHeader}

/-- The entry points to a route object that exists, with the destination it is filed under. -/
structure Routed (routes : Routes) (nextRoute : Nat) (dst : Ipv4Address) (rt : RoutingTableEntry) : Prop where
  created : rt.ipv4Route < nextRoute
  destination : rt.getDestination routes = dst

/-- A metric at least as good was heard from the next hop. -/
def Backed (heard : Ipv4Address -> DsdvHeader -> Prop) (nextHop dst : Ipv4Address) (seqNo hops : Nat) : Prop :=
  ∃ header, heard nextHop header ∧ header.dst = dst ∧ header.dstSeqno % 2 ≠ 1 ∧
    NoBetter seqNo hops header.dstSeqno header.hopCount

/-- No metric was told that is better than what an entry leads to be told. -/
def NotBelow (told : DsdvHeader -> Prop) (dst : Ipv4Address) (seqNo hops : Nat) : Prop :=
  ∀ header, told header -> header.dst = dst -> header.dstSeqno % 2 ≠ 1 ->
    NoBetter header.dstSeqno header.hopCount seqNo (hops + 1)

/-- A route to another node. -/
structure Route (remote : Ipv4Address -> Prop) (heard : Ipv4Address -> DsdvHeader -> Prop) (told : DsdvHeader -> Prop)
    (routes : Routes) (dst : Ipv4Address) (rt : RoutingTableEntry) : Prop where
  remote : remote dst
  finite : rt.seqNo % 2 ≠ 1
  positive : 0 < rt.hops
  backed : Backed heard (rt.getNextHop routes) dst rt.seqNo rt.hops
  notBelow : NotBelow told dst rt.seqNo rt.hops

/-- An entry of the node itself, for one of its interfaces. -/
structure Own (remote : Ipv4Address -> Prop) (routes : Routes) (dst : Ipv4Address) (rt : RoutingTableEntry) : Prop where
  notRemote : ¬remote dst
  zero : rt.hops = 0
  itself : rt.getNextHop routes = dst

/-- An entry that may take the place of the main one. -/
structure Pending (remote : Ipv4Address -> Prop) (heard : Ipv4Address -> DsdvHeader -> Prop) (node : RoutingProtocol)
    (dst : Ipv4Address) (rt : RoutingTableEntry) : Prop where
  remote : remote dst
  positive : 0 < rt.hops
  routed : Routed node.routes node.nextRoute dst rt
  paired : ∀ main, node.routingTable.lookupRoute dst = some main ->
    rt.ipv4Route = main.ipv4Route ∧ rt.seqNo % 2 ≠ 1 ∧ NoBetter main.seqNo main.hops rt.seqNo rt.hops ∧
      Backed heard (rt.getNextHop node.routes) dst rt.seqNo rt.hops

structure Sound (remote : Ipv4Address -> Prop) (heard : Ipv4Address -> DsdvHeader -> Prop) (told : DsdvHeader -> Prop)
    (node : RoutingProtocol) : Prop where
  routed : ∀ dst rt, node.routingTable.lookupRoute dst = some rt -> Routed node.routes node.nextRoute dst rt
  main : ∀ dst rt, node.routingTable.lookupRoute dst = some rt ->
    Own remote node.routes dst rt ∨ Route remote heard told node.routes dst rt
  adv : ∀ dst rt, node.advRoutingTable.lookupRoute dst = some rt -> Pending remote heard node dst rt

theorem Sound.route (sound : Sound remote heard told node) (isRemote : remote dst)
    (found : node.routingTable.lookupRoute dst = some rt) : Route remote heard told node.routes dst rt := by
  obtain own | route := sound.main dst rt found
  · exact absurd isRemote own.notRemote
  · exact route

variable {nextHop : Ipv4Address}

variable {heard' : Ipv4Address -> DsdvHeader -> Prop} {seqNo hops : Nat}

theorem Backed.mono
    (grows : ∀ sender header, heard sender header -> heard' sender header)
    (backed : Backed heard nextHop dst seqNo hops) : Backed heard' nextHop dst seqNo hops := by
  obtain ⟨header, isHeard, rest⟩ := backed
  exact ⟨header, grows nextHop header isHeard, rest⟩

theorem NotBelow.improve {seqNo' hops' : Nat} (notBelow : NotBelow told dst seqNo hops)
    (noBetter : NoBetter seqNo hops seqNo' hops') : NotBelow told dst seqNo' hops' := by
  intro header isTold named finite
  have bound := notBelow header isTold named finite
  simp only [NoBetter] at *
  omega

theorem Sound.hear (sound : Sound remote heard told node)
    (grows : ∀ sender header, heard sender header -> heard' sender header) : Sound remote heard' told node := by
  refine ⟨sound.routed, fun dst rt found => ?_, fun dst rt found => ?_⟩
  · obtain own | route := sound.main dst rt found
    · exact .inl own
    · exact .inr ⟨route.remote, route.finite, route.positive, route.backed.mono grows, route.notBelow⟩
  · have pending := sound.adv dst rt found
    refine ⟨pending.remote, pending.positive, pending.routed, fun main mainFound => ?_⟩
    obtain ⟨shared, finite, better, backed⟩ := pending.paired main mainFound
    exact ⟨shared, finite, better, backed.mono grows⟩

variable {rt' : RoutingTableEntry}

theorem Routed.ne_of_ne (routed : Routed node.routes node.nextRoute dst rt)
    (routed' : Routed node.routes node.nextRoute other rt') (ne : dst ≠ other) : rt'.ipv4Route ≠ rt.ipv4Route := by
  intro same
  apply ne
  rw [← routed.destination, ← routed'.destination, getDestination, getDestination, same]

/-! ## Entries refiled

What a node does to its tables short of taking up an update moves entries between them: an
advertised entry takes the place of a main one, a main one is advertised, and entries go.
-/

/-- Entries that agree on what is told of them and on the route object. -/
structure Same (rt rt' : RoutingTableEntry) : Prop where
  seqNo : rt.seqNo = rt'.seqNo
  hops : rt.hops = rt'.hops
  ipv4Route : rt.ipv4Route = rt'.ipv4Route

structure Refiled (remote : Ipv4Address -> Prop) (heard : Ipv4Address -> DsdvHeader -> Prop)
    (node next : RoutingProtocol) : Prop where
  routes : next.routes = node.routes
  nextRoute : next.nextRoute = node.nextRoute
  own : ∀ dst, ¬remote dst -> next.routingTable.lookupRoute dst = node.routingTable.lookupRoute dst
  main : ∀ dst rt, next.routingTable.lookupRoute dst = some rt -> node.routingTable.lookupRoute dst = some rt ∨
    ∃ old pending, node.routingTable.lookupRoute dst = some old ∧ Pending remote heard node dst pending ∧
      Same rt pending ∧ ∀ advEntry, next.advRoutingTable.lookupRoute dst = some advEntry -> advEntry = pending
  adv : ∀ dst rt, next.advRoutingTable.lookupRoute dst = some rt -> node.advRoutingTable.lookupRoute dst = some rt ∨
    node.routingTable.lookupRoute dst = some rt ∧ remote dst ∨
    (next.routingTable.lookupRoute dst = none ∧ remote dst ∧ 0 < rt.hops ∧ Routed node.routes node.nextRoute dst rt)

theorem Same.getNextHop (same : Same rt rt') (routes : Routes) : rt.getNextHop routes = rt'.getNextHop routes := by
  rw [RoutingTableEntry.getNextHop, RoutingTableEntry.getNextHop, same.ipv4Route]

theorem Same.getDestination (same : Same rt rt') (routes : Routes) :
    rt.getDestination routes = rt'.getDestination routes := by
  rw [RoutingTableEntry.getDestination, RoutingTableEntry.getDestination, same.ipv4Route]

theorem Routed.of_same (routed : Routed node.routes node.nextRoute dst rt') (same : Same rt rt') :
    Routed node.routes node.nextRoute dst rt := by
  refine ⟨?_, ?_⟩
  · rw [same.ipv4Route]
    exact routed.created
  · rw [same.getDestination]
    exact routed.destination

theorem Route.replaced {main pending : RoutingTableEntry} (route : Route remote heard told node.routes dst main)
    (found : node.routingTable.lookupRoute dst = some main) (isPending : Pending remote heard node dst pending)
    (same : Same rt pending) : Route remote heard told node.routes dst rt := by
  obtain ⟨_, finite, better, backed⟩ := isPending.paired main found
  refine ⟨route.remote, ?_, ?_, ?_, ?_⟩
  · rw [same.seqNo]
    exact finite
  · rw [same.hops]
    exact isPending.positive
  · rw [same.getNextHop, same.seqNo, same.hops]
    exact backed
  · rw [same.seqNo, same.hops]
    exact route.notBelow.improve better

theorem Sound.refiled (sound : Sound remote heard told node) (refiled : Refiled remote heard node next) :
    Sound remote heard told next := by
  obtain ⟨routes, nextRoute, _, mainFrom, advFrom⟩ := refiled
  refine ⟨fun dst rt found => ?_, fun dst rt found => ?_, fun dst rt found => ?_⟩
  · rw [routes, nextRoute]
    obtain before | ⟨_, pending, _, isPending, same, _⟩ := mainFrom dst rt found
    · exact sound.routed dst rt before
    · exact isPending.routed.of_same same
  · rw [routes]
    obtain before | ⟨main, pending, before, isPending, same, _⟩ := mainFrom dst rt found
    · exact sound.main dst rt before
    · exact .inr ((sound.route isPending.remote before).replaced before isPending same)
  · have pairedNext : ∀ main, next.routingTable.lookupRoute dst = some main ->
        (node.routingTable.lookupRoute dst = some main -> rt.ipv4Route = main.ipv4Route ∧ rt.seqNo % 2 ≠ 1 ∧
          NoBetter main.seqNo main.hops rt.seqNo rt.hops ∧
            Backed heard (rt.getNextHop node.routes) dst rt.seqNo rt.hops) ->
        rt.ipv4Route = main.ipv4Route ∧ rt.seqNo % 2 ≠ 1 ∧ NoBetter main.seqNo main.hops rt.seqNo rt.hops ∧
          Backed heard (rt.getNextHop next.routes) dst rt.seqNo rt.hops := by
      intro main mainFound asBefore
      rw [routes]
      obtain before | ⟨old, pending, before, isPending, same, only⟩ := mainFrom dst main mainFound
      · exact asBefore before
      · obtain rfl := only rt found
        obtain ⟨_, finite, _, backed⟩ := isPending.paired old before
        rw [same.seqNo, same.hops]
        exact ⟨same.ipv4Route.symm, finite, .refl _ _, backed⟩
    have routedNext : Routed node.routes node.nextRoute dst rt -> Routed next.routes next.nextRoute dst rt := by
      rw [routes, nextRoute]
      exact id
    obtain before | ⟨before, isRemote⟩ | ⟨absent, isRemote, pos, routed⟩ := advFrom dst rt found
    · have pending := sound.adv dst rt before
      exact ⟨pending.remote, pending.positive, routedNext pending.routed,
        fun main mainFound => pairedNext main mainFound (pending.paired main)⟩
    · have route := sound.route isRemote before
      refine ⟨isRemote, route.positive, routedNext (sound.routed dst rt before), fun main mainFound => ?_⟩
      refine pairedNext main mainFound fun mainBefore => ?_
      cases before.symm.trans mainBefore
      exact ⟨rfl, route.finite, .refl _ _, route.backed⟩
    · refine ⟨isRemote, pos, routedNext routed, fun main mainFound => ?_⟩
      cases absent.symm.trans mainFound

theorem Refiled.of_tables (mainSame : next.routingTable = node.routingTable)
    (advSame : next.advRoutingTable = node.advRoutingTable)
    (routes : next.routes = node.routes) (nextRoute : next.nextRoute = node.nextRoute) :
    Refiled remote heard node next := by
  refine ⟨routes, nextRoute, fun dst _ => ?_, fun dst rt found => .inl ?_, fun dst rt found => .inl ?_⟩
  · rw [mainSame]
  · rwa [mainSame] at found
  · rwa [advSame] at found

/-- An entry that stays in the main table keeps its sequence number or gets a better one. -/
theorem Refiled.seqNo_le (refiled : Refiled remote heard node next)
    (found : node.routingTable.lookupRoute dst = some rt) (found' : next.routingTable.lookupRoute dst = some rt') :
    rt.seqNo ≤ rt'.seqNo := by
  obtain before | ⟨old, pending, before, isPending, same, _⟩ := refiled.main dst rt' found'
  · cases found.symm.trans before
    exact Nat.le_refl _
  · cases found.symm.trans before
    rw [same.seqNo]
    exact (isPending.paired rt found).2.2.1.seqNo_le

theorem getDestination_setNextHop (rt rt' : RoutingTableEntry) :
    rt'.getDestination (node.setNextHop rt sender).routes = rt'.getDestination node.routes := by
  simp only [getDestination, setNextHop, Function.update_apply]
  split
  case isTrue same => rw [same]
  case isFalse => rfl

theorem getNextHop_setNextHop_self (same : rt'.ipv4Route = rt.ipv4Route) :
    rt'.getNextHop (node.setNextHop rt sender).routes = sender := by
  simp [getNextHop, setNextHop, same]

theorem getNextHop_setNextHop_of_ne (ne : rt'.ipv4Route ≠ rt.ipv4Route) :
    rt'.getNextHop (node.setNextHop rt sender).routes = rt'.getNextHop node.routes := by
  simp [getNextHop, setNextHop, Function.update_of_ne ne]

/-- An update for a destination the node has a route to, at least as good as the advertised one. -/
structure TakesUp (heard : Ipv4Address -> DsdvHeader -> Prop) (sender : Ipv4Address) (header : DsdvHeader)
    (advEntry : RoutingTableEntry) : Prop where
  heard : heard sender header
  finite : header.dstSeqno % 2 ≠ 1
  positive : 0 < header.hopCount
  better : NoBetter advEntry.seqNo advEntry.hops header.dstSeqno header.hopCount

theorem lookupRoute_sameMetric (now : Nat) (routed : Routed node.routes node.nextRoute header.dst advEntry)
    (advFound : node.advRoutingTable.lookupRoute header.dst = some advEntry) (other : Ipv4Address) :
    (node.sameMetric now sender header advEntry).advRoutingTable.lookupRoute other =
      if header.dst = other then some (updated now header advEntry) else node.advRoutingTable.lookupRoute other := by
  have filed : (updated now header advEntry).getDestination (node.setNextHop advEntry sender).routes = header.dst :=
    (getDestination_setNextHop advEntry (updated now header advEntry)).trans routed.destination
  rw [RoutingProtocol.sameMetric, lookupRoute_update, filed]
  split
  case isTrue same =>
    subst same
    rw [setNextHop, advFound, Option.map_some]
  case isFalse => rfl

theorem Sound.sameMetric (sound : Sound remote heard told node) (now : Nat)
    (advFound : node.advRoutingTable.lookupRoute header.dst = some advEntry)
    (takesUp : TakesUp heard sender header advEntry) :
    Sound remote heard told (node.sameMetric now sender header advEntry) := by
  have pending := sound.adv _ _ advFound
  have routedNext : ∀ {dst rt}, Routed node.routes node.nextRoute dst rt ->
        Routed (node.setNextHop advEntry sender).routes node.nextRoute dst rt := by
    intro dst rt routed
    exact ⟨routed.created, (getDestination_setNextHop advEntry rt).trans routed.destination⟩
  have backed : ∀ {seqNo hops}, NoBetter seqNo hops advEntry.seqNo advEntry.hops ->
      Backed heard sender header.dst seqNo hops :=
        fun noBetter => ⟨header, takesUp.heard, rfl, takesUp.finite, noBetter.trans takesUp.better⟩
  refine ⟨fun dst rt found => routedNext (sound.routed dst rt found), fun dst rt found => ?_, fun dst rt found => ?_⟩
  · rw [show (node.sameMetric now sender header advEntry).routes = (node.setNextHop advEntry sender).routes from rfl]
    by_cases same : header.dst = dst
    · subst same
      have route := sound.route pending.remote found
      obtain ⟨shared, _, noBetter, _⟩ := pending.paired rt found
      refine .inr ⟨route.remote, route.finite, route.positive, ?_, route.notBelow⟩
      rw [getNextHop_setNextHop_self shared.symm]
      exact backed noBetter
    · have ne := pending.routed.ne_of_ne (sound.routed dst rt found) same
      obtain own | route := sound.main dst rt found
      · refine .inl ⟨own.notRemote, own.zero, ?_⟩
        rw [getNextHop_setNextHop_of_ne ne]
        exact own.itself
      · refine .inr ⟨route.remote, route.finite, route.positive, ?_, route.notBelow⟩
        rw [getNextHop_setNextHop_of_ne ne]
        exact route.backed
  · rw [lookupRoute_sameMetric now pending.routed advFound] at found
    split at found
    case isTrue same =>
      cases found
      subst same
      refine ⟨pending.remote, takesUp.positive, routedNext ⟨pending.routed.created, pending.routed.destination⟩, ?_⟩
      intro main mainFound
      obtain ⟨shared, _, noBetter, _⟩ := pending.paired main mainFound
      refine ⟨shared, takesUp.finite, noBetter.trans takesUp.better, ?_⟩
      have through : (updated now header advEntry).getNextHop (node.setNextHop advEntry sender).routes = sender :=
        getNextHop_setNextHop_self rfl
      rw [show (node.sameMetric now sender header advEntry).routes = (node.setNextHop advEntry sender).routes from rfl,
        through]
      exact ⟨header, takesUp.heard, rfl, takesUp.finite, .refl _ _⟩
    case isFalse same =>
      have others := sound.adv dst rt found
      refine ⟨others.remote, others.positive, routedNext others.routed, fun main mainFound => ?_⟩
      rw [show (node.sameMetric now sender header advEntry).routes = (node.setNextHop advEntry sender).routes from rfl,
        getNextHop_setNextHop_of_ne (pending.routed.ne_of_ne others.routed same)]
      exact others.paired main mainFound

theorem refiled_changedMetric (sound : Sound remote heard told (node.sameMetric now sender header advEntry))
    (routed : Routed node.routes node.nextRoute header.dst advEntry)
    (advFound : node.advRoutingTable.lookupRoute header.dst = some advEntry) :
    Refiled remote heard (node.sameMetric now sender header advEntry)
      (node.changedMetric now sender header advEntry) := by
  have filed : (updated now header advEntry).getDestination (node.setNextHop advEntry sender).routes = header.dst :=
    (getDestination_setNextHop advEntry (updated now header advEntry)).trans routed.destination
  have advNow : (node.sameMetric now sender header advEntry).advRoutingTable.lookupRoute header.dst =
      some (updated now header advEntry) := (lookupRoute_sameMetric now routed advFound header.dst).trans (if_pos rfl)
  have pending := sound.adv _ _ advNow
  have lookup : ∀ dst, (node.changedMetric now sender header advEntry).routingTable.lookupRoute dst =
      if header.dst = dst then (node.routingTable.lookupRoute dst).map fun _ => updated now header advEntry
      else node.routingTable.lookupRoute dst := by
    intro dst
    change (update (node.setNextHop advEntry sender).routes node.routingTable _).lookupRoute dst = _
    rw [lookupRoute_update, filed]
  refine ⟨rfl, rfl, fun dst notRemote => ?_, fun dst rt found => ?_, fun dst rt found => .inl found⟩
  · rw [lookup, if_neg]
    · rfl
    · rintro rfl
      exact notRemote pending.remote
  · rw [lookup] at found
    split at found
    case isTrue same =>
      subst same
      obtain ⟨old, before, rfl⟩ := Option.map_eq_some_iff.mp found
      exact .inr ⟨old, _, before, pending, ⟨rfl, rfl, rfl⟩, fun other also => Option.some.inj (also.symm.trans advNow)⟩
    case isFalse => exact .inl found

section

variable (routed : Routed node.routes node.nextRoute dst rt)
include routed

theorem newRoute_of_routed :
    (node.newRoute other nextHop).routes rt.ipv4Route = node.routes rt.ipv4Route :=
  Function.update_of_ne (Nat.ne_of_lt routed.created) _ _

theorem Routed.newRoute :
    Routed (node.newRoute other nextHop).routes (node.newRoute other nextHop).nextRoute dst rt := by
  refine ⟨Nat.lt_succ_of_lt routed.created, ?_⟩
  rw [getDestination, newRoute_of_routed routed]
  exact routed.destination

theorem getNextHop_newRoute :
    rt.getNextHop (node.newRoute other nextHop).routes = rt.getNextHop node.routes := by
  rw [getNextHop, getNextHop, newRoute_of_routed routed]

end

theorem routed_newEntry (now : Nat) (sender : Ipv4Address) :
    Routed (node.newRoute header.dst sender).routes (node.nextRoute + 1)
    header.dst (newEntry now node header) :=
  ⟨Nat.lt_succ_self _, congrArg Ipv4Route.destination (Function.update_self node.nextRoute _ node.routes)⟩

theorem getNextHop_newEntry (now : Nat) (sender : Ipv4Address) :
    (newEntry now node header).getNextHop (node.newRoute header.dst sender).routes = sender :=
  congrArg Ipv4Route.gateway (Function.update_self node.nextRoute _ node.routes)

theorem lookupRoute_addRoute_newEntry {table : RoutingTable} (now : Nat) (sender : Ipv4Address)
    (absent : table.lookupRoute header.dst = none) (other : Ipv4Address) :
    (table.addRoute (node.newRoute header.dst sender).routes (newEntry now node header)).lookupRoute other =
      if header.dst = other then some (newEntry now node header) else table.lookupRoute other := by
  rw [lookupRoute_addRoute, (routed_newEntry now sender).destination]
  split
  case isTrue same => rw [← same, absent, Option.getD_none]
  case isFalse => rfl

theorem Sound.receivedNewRoute (sound : Sound remote heard told node) (now : Nat) (isRemote : remote header.dst)
    (isHeard : heard sender header) (finite : header.dstSeqno % 2 ≠ 1) (pos : 0 < header.hopCount)
    (mainAbsent : node.routingTable.lookupRoute header.dst = none)
    (advAbsent : node.advRoutingTable.lookupRoute header.dst = none)
    (newer : ∀ other, told other -> other.dst = header.dst -> other.dstSeqno % 2 ≠ 1 ->
      other.dstSeqno < header.dstSeqno) :
    Sound remote heard told (node.receivedNewRoute now sender header) := by
  let routes := (node.newRoute header.dst sender).routes
  have routed : Routed routes (node.nextRoute + 1) header.dst (newEntry now node header) := routed_newEntry now sender
  have backed : Backed heard
    ((newEntry now node header).getNextHop routes) header.dst header.dstSeqno header.hopCount := by
    rw [getNextHop_newEntry]
    exact ⟨header, isHeard, rfl, finite, .refl _ _⟩
  have mainNow : ∀ dst, (node.receivedNewRoute now sender header).routingTable.lookupRoute dst =
      if header.dst = dst then some (newEntry now node header) else node.routingTable.lookupRoute dst :=
    lookupRoute_addRoute_newEntry now sender mainAbsent
  have advNow : ∀ dst, (node.receivedNewRoute now sender header).advRoutingTable.lookupRoute dst =
      if header.dst = dst then some (newEntry now node header) else node.advRoutingTable.lookupRoute dst :=
    lookupRoute_addRoute_newEntry now sender advAbsent
  refine ⟨fun dst rt found => ?_, fun dst rt found => ?_, fun dst rt found => ?_⟩
  · rw [mainNow] at found
    split at found
    case isTrue same =>
      cases found
      exact same ▸ routed
    case isFalse => exact (sound.routed dst rt found).newRoute
  · rw [mainNow] at found
    change Own remote routes dst rt ∨ Route remote heard told routes dst rt
    split at found
    case isTrue same =>
      cases found
      subst same
      exact .inr ⟨isRemote, finite, pos, backed, fun other isTold named otherFinite =>
        .inl (newer other isTold named otherFinite)⟩
    case isFalse =>
      have same : rt.getNextHop routes = rt.getNextHop node.routes := getNextHop_newRoute (sound.routed dst rt found)
      obtain own | route := sound.main dst rt found
      · exact .inl ⟨own.notRemote, own.zero, same.trans own.itself⟩
      · refine .inr ⟨route.remote, route.finite, route.positive, ?_, route.notBelow⟩
        rw [same]
        exact route.backed
  · rw [advNow] at found
    split at found
    case isTrue same =>
      cases found
      subst same
      refine ⟨isRemote, pos, routed, fun main mainFound => ?_⟩
      rw [mainNow, if_pos rfl] at mainFound
      cases mainFound
      exact ⟨rfl, finite, .refl _ _, backed⟩
    case isFalse same =>
      have pending := sound.adv dst rt found
      refine ⟨pending.remote, pending.positive, pending.routed.newRoute, fun main mainFound => ?_⟩
      rw [mainNow, if_neg same] at mainFound
      rw [show rt.getNextHop (node.receivedNewRoute now sender header).routes = rt.getNextHop node.routes from
        getNextHop_newRoute pending.routed]
      exact pending.paired main mainFound

end RoutingProtocol

end Ns3.Dsdv
