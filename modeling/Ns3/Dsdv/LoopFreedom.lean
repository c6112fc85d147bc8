import Mathlib.Data.Prod.Lex
import Ns3.Dsdv.Network

/-!
# Loop freedom

Along the next hops for a destination the sequence number rises, or stays and the metric falls. What
carries this through a run is that updates arrive at any time: an entry is backed by an update its
next hop once sent, and the next hop is not below it since.
-/

namespace Ns3.Dsdv

open Ns3.Network Ns3.Semantics RoutingProtocol List Option

universe u

namespace Network

variable {Node : Type u} {network : Network Node} {state next : NetworkState Node} {node other : Node}
  {dst sender : Ipv4Address} {header : DsdvHeader} {action : Action Node}

/-- The addresses other nodes advertise themselves under. -/
def Remote (network : Network Node) (node : Node) (dst : Ipv4Address) : Prop :=
  ∃ other, other ≠ node ∧ dst = (network.host other).address

/-- A header in an update sent from an address. -/
def Heard (state : NetworkState Node) (sender : Ipv4Address) (header : DsdvHeader) : Prop :=
  ∃ update ∈ state.sent, update.sender = sender ∧ header ∈ update.headers

/-- Updates sent are some node's, of destinations it may tell of. -/
def SentBy (network : Network Node) (update : Update) : Prop :=
  ∃ node, (network.host node).isLocal update.sender ∧
    ∀ header ∈ update.headers, Sendable (network.Remote node) (network.host node) header

structure Invariant (network : Network Node) (state : NetworkState Node) : Prop where
  sound : ∀ node, Sound (network.Remote node) (Heard state) (network.Told state node) (state.nodes node)
  numbered : ∀ node, Numbered (network.host node) (state.nodes node)
  sent : ∀ update ∈ state.sent, network.SentBy update

theorem isLocal_address (host : Host) : host.isLocal host.address :=
  Host.isLocal_of_mem host.up

theorem not_remote_address (network : Network Node) (node : Node) :
    ¬network.Remote node (network.host node).address := by
  rintro ⟨other, ne, same⟩
  apply ne
  apply network.distinct other node (network.host other).address (isLocal_address _)
  rw [← same]
  exact isLocal_address _

theorem BroadcastsFree.not_remote (free : network.BroadcastsFree) {iface : Ipv4InterfaceAddress}
    (up : iface ∈ (network.host node).socketAddresses) : ¬network.Remote node iface.getBroadcast := by
  rintro ⟨other, ne, same⟩
  exact free.broadcast node other iface up (Ne.symm ne) same

theorem BroadcastsFree.not_remote_loopback (free : network.BroadcastsFree) : ¬network.Remote node loopback := by
  rintro ⟨other, _, same⟩
  exact free.notLoopback other same.symm

variable {update : Update} {seqNo hops : Nat}

theorem SentBy.proper (sentBy : network.SentBy update) (node : Node) (inside : header ∈ update.headers) :
    Proper (network.Remote node) (network.host node) header := by
  obtain ⟨sender, _, sendable⟩ := sentBy
  have one := sendable header inside
  refine ⟨one.positive, ?_⟩
  have named : ∃ owner, header.dst = (network.host owner).address := by
    obtain same | ⟨owner, _, same⟩ := one.named
    · exact ⟨sender, same⟩
    · exact ⟨owner, same⟩
  obtain ⟨owner, same⟩ := named
  by_cases isNode : owner = node
  · left
    rw [same, isNode]
    exact isLocal_address _
  · exact .inr ⟨owner, isNode, same⟩

/-- A higher sequence number ranks higher, and a lower metric among equal ones. -/
abbrev Rank := ℕ ×ₗ ℕᵒᵈ

def rankOf (seqNo hops : Nat) : Rank :=
  toLex (seqNo, OrderDual.toDual hops)

theorem rankOf_le {seqNo' hops' : Nat} : rankOf seqNo hops ≤ rankOf seqNo' hops' ↔ NoBetter seqNo hops seqNo' hops' :=
  Prod.Lex.toLex_le_toLex

theorem rankOf_lt_pred (pos : 0 < hops) : rankOf seqNo hops < rankOf seqNo (hops - 1) := by
  rw [rankOf, rankOf, Prod.Lex.toLex_lt_toLex]
  exact .inr ⟨rfl, OrderDual.toDual_lt_toDual.mpr (by omega)⟩

def rank (state : NetworkState Node) (dst : Ipv4Address) (node : Node) : Rank :=
  match (state.nodes node).routingTable.lookupRoute dst with
  | some rt => rankOf rt.seqNo rt.hops
  | none => rankOf 0 0

/-- Telling of a metric offers a way of one hop less. -/
def Offers (network : Network Node) (state : NetworkState Node) (dst : Ipv4Address) (node : Node)
    (offer : Rank) : Prop :=
  ∃ header, network.Told state node header ∧ header.dst = dst ∧ header.dstSeqno % 2 ≠ 1 ∧
    offer = rankOf header.dstSeqno (header.hopCount - 1)

theorem Invariant.route (invariant : network.Invariant state) {rt : RoutingTableEntry}
    (found : (state.nodes node).routingTable.lookupRoute dst = some rt) (pos : 0 < rt.hops) :
    Route (network.Remote node) (Heard state) (network.Told state node) (state.nodes node).routes dst rt := by
  obtain own | route := (invariant.sound node).main dst rt found
  · exact absurd own.zero (Nat.ne_of_gt pos)
  · exact route

theorem Invariant.offered (invariant : network.Invariant state) (dst : Ipv4Address) :
    RankedHops.Offered (network.NextHop state dst) (rank state dst) (network.Offers state dst) := by
  refine ⟨fun i j => ?_, fun j k offer => ?_⟩
  · rintro ⟨rt, found, pos, isLocal⟩
    obtain ⟨header, ⟨update, isSent, named, inside⟩, isDst, finite, better⟩ := (invariant.route found pos).backed
    refine ⟨_, ⟨header, ⟨update, isSent, ?_, inside⟩, isDst, finite, rfl⟩, ?_⟩
    · rw [named]
      exact isLocal
    · rw [rank, found]
      have hopCount := ((invariant.sent update isSent).proper i inside).positive
      exact lt_of_le_of_lt (rankOf_le.mpr better) (rankOf_lt_pred hopCount)
  · rintro ⟨rt, found, pos, _⟩ ⟨header, isTold, isDst, finite, rfl⟩
    have bound := (invariant.route found pos).notBelow header isTold isDst finite
    rw [rank, found]
    apply rankOf_le.mpr
    simp only [NoBetter] at bound ⊢
    omega

theorem Invariant.loopFree (invariant : network.Invariant state) : network.LoopFree state :=
  fun dst => (invariant.offered dst).loopFree

variable [DecidableEq Node] {result : RoutingProtocol}

theorem Invariant.changed (invariant : network.Invariant state) {updates : List Update}
    (nodes : next.nodes = Function.update state.nodes node result) (isSent : next.sent = state.sent ++ updates)
    (sound : Sound (network.Remote node) (Heard state)
      (fun header => network.Told state node header ∨ ∃ update ∈ updates, header ∈ update.headers) result)
    (numbered : Numbered (network.host node) result)
    (sent : ∀ update ∈ updates, (network.host node).isLocal update.sender ∧
      ∀ header ∈ update.headers, Sendable (network.Remote node) (network.host node) header) :
        network.Invariant next := by
  have heard : ∀ sender header, Heard state sender header -> Heard next sender header := by
    rintro sender header ⟨update, before, rest⟩
    exact ⟨update, isSent ▸ mem_append_left _ before, rest⟩
  have told : ∀ other header, network.Told next other header ->
      network.Told state other header ∨ other = node ∧ ∃ update ∈ updates, header ∈ update.headers := by
    rintro other header ⟨update, inSent, isLocal, inside⟩
    rw [isSent] at inSent
    obtain before | new := mem_append.mp inSent
    · exact .inl ⟨update, before, isLocal, inside⟩
    · exact .inr ⟨network.distinct other node _ isLocal (sent update new).1, update, new, inside⟩
  refine ⟨fun other => ?_, fun other => ?_, fun update inSent => ?_⟩
  · rw [nodes]
    by_cases same : other = node
    · subst same
      rw [Function.update_self]
      refine (sound.hear heard).narrow fun header isTold => ?_
      obtain before | ⟨_, new⟩ := told other header isTold
      · exact .inl before
      · exact .inr new
    · rw [Function.update_of_ne same]
      refine ((invariant.sound other).hear heard).narrow fun header isTold => ?_
      exact (told other header isTold).resolve_right fun new => same new.1
  · rw [nodes]
    by_cases same : other = node
    · subst same
      rw [Function.update_self]
      exact numbered
    · rw [Function.update_of_ne same]
      exact invariant.numbered other
  · rw [isSent] at inSent
    obtain before | new := mem_append.mp inSent
    · exact invariant.sent update before
    · exact ⟨node, sent update new⟩

theorem Invariant.unsent (invariant : network.Invariant state)
    (sound : Sound (network.Remote node) (Heard state) (network.Told state node) result)
    (numbered : Numbered (network.host node) result) :
    network.Invariant { state with nodes := Function.update state.nodes node result } := by
  refine invariant.changed rfl (append_nil state.sent).symm ?_ numbered fun _ mem => nomatch mem
  refine sound.narrow fun header isTold => ?_
  obtain before | ⟨_, mem, _⟩ := isTold
  · exact before
  · cases mem

theorem numbersRise_of_node (nodes : next.nodes = Function.update state.nodes node result)
    (rise : ∀ dst rt rt', (state.nodes node).routingTable.lookupRoute dst = some rt ->
      result.routingTable.lookupRoute dst = some rt' -> rt.seqNo ≤ rt'.seqNo) : NumbersRise state next := by
  intro other dst rt rt' found found'
  rw [nodes] at found'
  by_cases same : other = node
  · subst same
    rw [Function.update_self] at found'
    exact rise dst rt rt' found found'
  · rw [Function.update_of_ne same] at found'
    cases found.symm.trans found'
    exact Nat.le_refl _

/-- What a step preserves, and what it does to the numbers. -/
structure Good (network : Network Node) (state next : NetworkState Node) : Prop where
  invariant : network.Invariant next
  rise : NumbersRise state next

section

variable (invariant : network.Invariant state)
include invariant

section

variable (free : network.BroadcastsFree)
include free

theorem Invariant.receive (isSent : update ∈ state.sent)
    (fresh : AllFresh (network.Told state node) (network.host node) state.now update.sender
      (state.nodes node) update.headers) :
    network.Good state { state with
      nodes := Function.update state.nodes node
        ((state.nodes node).recvDsdv (network.host node) state.now update) } := by
  have sane := (invariant.sound node).sane_recvHeaders
    (fun header inside => (invariant.sent update isSent).proper node inside)
    (fun header inside => ⟨update, isSent, rfl, inside⟩) fresh
  have sound : Sound (network.Remote node) (Heard state) (network.Told state node)
      ((state.nodes node).recvDsdv (network.host node) state.now update) :=
    sane.sound.refiled (.of_tables rfl rfl rfl rfl)
  have numbered :=
    (invariant.numbered node).of_own (invariant.sound node) sound
      (free.not_remote (network.host node).up)
    sane.succeeds.own
  exact ⟨invariant.unsent sound numbered, numbersRise_of_node rfl sane.succeeds.seqNo_le⟩

theorem Invariant.triggered {current : RoutingProtocol}
    (refiled : Refiled (network.Remote node) (Heard state) (state.nodes node) current) :
    network.Good state (send state node (current.sendTriggeredUpdate (network.host node))) := by
  have sound := (invariant.sound node).refiled refiled
  have sending := sound.sendTriggeredUpdate (network.not_remote_address node)
  have shrinks := refiled.shrinks.trans sending.shrinks
  have numbered :=
    (invariant.numbered node).of_own (invariant.sound node) sending.sound
      (free.not_remote (network.host node).up)
    shrinks.own
  refine ⟨invariant.changed rfl rfl sending.sound numbered sending.sent,
    numbersRise_of_node rfl fun _ _ _ => shrinks.rise⟩

theorem Invariant.periodic :
    network.Good state (send state node ((state.nodes node).sendPeriodicUpdate (network.host node) state.now)) := by
  have broadcastFree := free.not_remote (network.host node).up
  have refreshed : Refreshed (network.Remote node) (Heard state) (network.Told state node) (network.host node) state.now
      (state.nodes node) (refresh (network.host node) state.now (state.nodes node)) :=
        (invariant.sound node).refreshed state.now
  have broadcasting := refreshed.sendPeriodicUpdate (network.not_remote_address node) broadcastFree
  have ownRaised := ownRaised_sendPeriodicUpdate refreshed (network.not_remote_address node) broadcastFree
  obtain ⟨numbered, own⟩ := ((invariant.numbered node).of_own (invariant.sound node) refreshed.sound broadcastFree
    refreshed.shrinks.own).raised refreshed.sound broadcasting.sound broadcastFree broadcasting.others ownRaised
  refine ⟨invariant.changed rfl rfl broadcasting.sound numbered broadcasting.sent,
    numbersRise_of_node rfl fun dst rt rt' found found' => ?_⟩
  have between : ∃ middle,
      (refresh (network.host node) state.now (state.nodes node)).routingTable.lookupRoute dst = some middle ∧
        middle.seqNo ≤ rt'.seqNo := by
    by_cases isOwn : dst = (network.host node).ownBroadcast
    · subst isOwn
      exact own rt' found'
    · exact ⟨rt', (broadcasting.others dst isOwn).symm.trans found', Nat.le_refl _⟩
  obtain ⟨middle, foundMiddle, le⟩ := between
  obtain ⟨old, before, le'⟩ := refreshed.shrinks.kept dst middle foundMiddle
  cases found.symm.trans before
  exact Nat.le_trans le' le

theorem Invariant.routeOutput : network.Good state { state with
    nodes := Function.update state.nodes node ((state.nodes node).routeOutput (network.host node) state.now) } := by
  have holds : Sound (network.Remote node) (Heard state) (network.Told state node)
      ((state.nodes node).routeOutput (network.host node) state.now) ∧
        Shrinks (network.Remote node) (state.nodes node)
          ((state.nodes node).routeOutput (network.host node) state.now) :=
    (invariant.sound node).routeOutput state.now
  obtain ⟨sound, shrinks⟩ := holds
  have numbered :=
    (invariant.numbered node).of_own (invariant.sound node) sound
      (free.not_remote (network.host node).up)
    shrinks.own
  exact ⟨invariant.unsent sound numbered, numbersRise_of_node rfl fun _ _ _ => shrinks.rise⟩

theorem Invariant.step
    (fresh : network.LearnsFresh state action) (moves : network.step state action = some next) :
    network.Good state next := by
  cases action with
  | receive node update =>
    obtain ⟨⟨isSent, _⟩, same⟩ := ite_none_right_eq_some.mp moves
    cases same
    exact invariant.receive free isSent fresh
  | triggered node =>
    obtain ⟨_, same⟩ := ite_none_right_eq_some.mp moves
    cases same
    exact invariant.triggered free (.of_tables rfl rfl rfl rfl)
  | settled node dst =>
    obtain ⟨_, same⟩ := ite_none_right_eq_some.mp moves
    cases same
    exact invariant.triggered free (.of_tables rfl rfl rfl rfl)
  | periodic node =>
    cases moves
    exact invariant.periodic free
  | routeOutput node =>
    cases moves
    exact invariant.routeOutput free
  | wait elapsed =>
    cases moves
    refine ⟨⟨invariant.sound, invariant.numbered, invariant.sent⟩, fun node dst rt rt' found found' => ?_⟩
    cases found.symm.trans found'
    exact Nat.le_refl _

end

end

theorem invariant_initial (free : network.BroadcastsFree) (initial : network.system.Initial state) :
    network.Invariant state := by
  obtain rfl := initial
  have started : ∀ node, Started (network.Remote node) (start (network.host node)) := fun node =>
    started_start free.not_remote_loopback fun _ up => free.not_remote up
  exact ⟨fun node => (started node).sound, fun node => (started node).numbered, fun _ mem => nomatch mem⟩

theorem invariant_of_run (free : network.BroadcastsFree) {trace : List (NetworkState Node × Action Node)}
    (run : network.system.Run trace state) (fresh : ∀ entry ∈ trace, network.LearnsFresh entry.1 entry.2) :
    network.Invariant state :=
  run.invariant_of_guard network.Invariant network.LearnsFresh (fun _ initial => invariant_initial free initial)
    (fun invariant fresh moves => (invariant.step free fresh moves).invariant) fresh

/-- Where all that is learned is fresh, no state of a run has a routing loop, and no sequence number
falls while its entry stays. -/
theorem loop_free_of_fresh (network : Network Node) (free : network.BroadcastsFree)
    {trace : List (NetworkState Node × Action Node)} {state : NetworkState Node} (run : network.system.Run trace state)
    (fresh : ∀ entry ∈ trace, network.LearnsFresh entry.1 entry.2) :
    (∀ entry ∈ trace, network.LoopFree entry.1) ∧ network.LoopFree state ∧
      ∀ entry ∈ trace, ∀ next, network.step entry.1 entry.2 = some next -> NumbersRise entry.1 next := by
  have before : ∀ entry ∈ trace, network.Invariant entry.1 := by
    intro entry member
    obtain ⟨earlier, later, rfl⟩ := append_of_mem member
    exact invariant_of_run free run.before.1 fun entry member => fresh entry (mem_append_left _ member)
  refine ⟨fun entry member => (before entry member).loopFree, (invariant_of_run free run fresh).loopFree, ?_⟩
  exact fun entry member next transition => ((before entry member).step free (fresh entry member) transition).rise

def interfaceOf (node : Fin 3) : Ipv4InterfaceAddress :=
  ⟨⟨0x0a010101 + UInt32.ofNat node⟩, ⟨0xffffff00⟩⟩

def hostOf (node : Fin 3) : Host :=
  ⟨interfaceOf node, [interfaceOf node], 45, mem_singleton_self _⟩

/-- Three nodes of one subnet. -/
def subnet : Network (Fin 3) where
  host := hostOf
  distinct := by
    intro i j address iLocal jLocal
    simp only [hostOf, Host.isLocal, any_cons, any_nil, Bool.or_false, decide_eq_true_eq] at iLocal jLocal
    have apart : ∀ i j, (interfaceOf i).localAddress = (interfaceOf j).localAddress -> i = j := by decide
    exact apart i j (iLocal.symm.trans jLocal)

def addressOf (node : Fin 3) : Ipv4Address :=
  (hostOf node).address

def atStart : NetworkState (Fin 3) :=
  { now := 0, nodes := fun node => .start (subnet.host node), sent := [] }

/-- The first periodic update of node 0. -/
def announcement : Update :=
  ⟨addressOf 0, [⟨addressOf 0, 2, 1⟩]⟩

theorem subnet_broadcastsFree : subnet.BroadcastsFree := by
  refine ⟨?_, by decide⟩
  change ∀ i j : Fin 3, ∀ iface ∈ [interfaceOf i], i ≠ j -> iface.getBroadcast ≠ (hostOf j).address
  decide

/-- Node 0 has announced itself. -/
def announced : NetworkState (Fin 3) :=
  send atStart 0 ((atStart.nodes 0).sendPeriodicUpdate (subnet.host 0) 0)

/-- Node 1 has heard it. -/
def learned : NetworkState (Fin 3) :=
  { announced with
    nodes := Function.update announced.nodes 1 ((announced.nodes 1).recvDsdv (subnet.host 1) 0 announcement) }

theorem loop_free_of_fresh_learned :
    (subnet.LoopFree announced ∧ subnet.LoopFree learned ∧ NumbersRise announced learned) ∧
      ((learned.nodes 1).routingTable.lookupRoute (addressOf 0)).map RoutingTableEntry.seqNo = some 2 := by
  have isSent : announcement ∈ announced.sent ∧ ¬(subnet.host 1).isLocal announcement.sender := by decide +kernel
  have arrives : subnet.step announced (.receive 1 announcement) = some learned := by
    change (if announcement ∈ announced.sent ∧
      ¬(subnet.host 1).isLocal announcement.sender then some learned else none) = _
    rw [if_pos isSent]
  have run : subnet.system.Run ([(atStart, .periodic 0)] ++ [(announced, .receive 1 announcement)]) learned :=
    .step (.step (.initial rfl) rfl) arrives
  have unheard : ∀ update ∈ announced.sent, ¬(subnet.host 1).isLocal update.sender := by decide +kernel
  have unadvertised : ((announced.nodes 1).advRoutingTable.lookupRoute (addressOf 0)).isNone := by decide +kernel
  have fresh : subnet.LearnsFresh announced (.receive 1 announcement) := by
    refine ⟨fun _ _ _ => ⟨isNone_iff_eq_none.mp unadvertised, ?_⟩, trivial⟩
    rintro other ⟨update, inSent, isLocal, _⟩
    exact absurd isLocal (unheard update inSent)
  have free := loop_free_of_fresh subnet subnet_broadcastsFree run (by
    rintro entry member
    simp only [cons_append, nil_append, mem_cons, not_mem_nil, or_false] at member
    obtain rfl | rfl := member
    · trivial
    · exact fresh)
  refine ⟨⟨free.1 (announced, .receive 1 announcement) (by simp), free.2.1, ?_⟩, by decide +kernel⟩
  exact free.2.2 (announced, .receive 1 announcement) (by simp) learned arrives

/-- Node 0 falls silent. Node 1 forgets it after the hold-down time, and the update that says so is
lost on the way to node 2, which has heard of node 0 from node 1 later on and tells node 1 of it. -/
def silence : List (Action (Fin 3)) :=
  [.periodic 0, .receive 1 announcement, .triggered 1,
    .receive 2 ⟨addressOf 1, [⟨addressOf 1, 0, 1⟩, ⟨addressOf 0, 2, 2⟩]⟩, .triggered 2, .wait 30, .periodic 1,
    .receive 2 ⟨addressOf 1, [⟨addressOf 1, 2, 1⟩, ⟨addressOf 0, 2, 2⟩]⟩, .triggered 2, .wait 20,
      .periodic 1, .periodic 2,
    .receive 1 ⟨addressOf 2, [⟨addressOf 2, 2, 1⟩, ⟨addressOf 1, 2, 2⟩, ⟨addressOf 0, 2, 3⟩]⟩]

/-- A node's metric and next hop for node 0. -/
def routeTo0 (state : NetworkState (Fin 3)) (node : Fin 3) : Option (Nat × Ipv4Address) :=
  ((state.nodes node).routingTable.lookupRoute (addressOf 0)).map fun rt =>
    (rt.hops, rt.getNextHop (state.nodes node).routes)

theorem routes_after_silence :
    ((subnet.system.exec atStart silence).map fun state => (routeTo0 state 1, routeTo0 state 2)) =
    some (some (3, addressOf 2), some (2, addressOf 1)) := by
  decide +kernel

theorem nextHop_of_routeTo0 {state : NetworkState (Fin 3)} {node other : Fin 3}
    (route : routeTo0 state node = some (hops + 1, addressOf other)) :
    subnet.NextHop state (addressOf 0) node other := by
  obtain ⟨rt, found, same⟩ := map_eq_some_iff.mp route
  obtain ⟨isHops, isNextHop⟩ := Prod.mk.inj same
  refine ⟨rt, found, isHops ▸ Nat.succ_pos hops, ?_⟩
  rw [isNextHop]
  exact isLocal_address _

/-- Node 1 takes up a longer way to node 0 through node 2, and before it may tell of it, purges its
own entry for node 2 and the new route with it. It then learns of node 0 anew, and when the settling
time is over, the advertised entry takes the new one's place. -/
def detour : List (Action (Fin 3)) :=
  [.periodic 0, .periodic 2, .receive 1 announcement, .receive 1 ⟨addressOf 2, [⟨addressOf 2, 2, 1⟩]⟩, .triggered 1,
    .receive 2 announcement, .triggered 2, .wait 46, .periodic 0, .receive 2 ⟨addressOf 0, [⟨addressOf 0, 4, 1⟩]⟩,
    .triggered 2, .periodic 2, .receive 1 ⟨addressOf 2, [⟨addressOf 2, 4, 1⟩, ⟨addressOf 0, 4, 2⟩]⟩,
      .periodic 1, .periodic 0,
    .receive 1 ⟨addressOf 0, [⟨addressOf 0, 6, 1⟩]⟩]

/-- Node 1's sequence number for node 0. -/
def numberAt1 (state : NetworkState (Fin 3)) : Option Nat :=
  ((state.nodes 1).routingTable.lookupRoute (addressOf 0)).map RoutingTableEntry.seqNo

theorem number_after_detour : ((subnet.system.exec atStart detour).bind fun state =>
    (subnet.step state (.settled 1 (addressOf 0))).map fun next => (numberAt1 state, numberAt1 next)) =
      some (some 6, some 4) := by
  decide +kernel

theorem not_always_loop_free :
    ¬(∀ (network : Network (Fin 3)) (trace : List (NetworkState (Fin 3) × Action (Fin 3)))
      (state : NetworkState (Fin 3)),
      network.system.Run trace state -> network.LoopFree state) ∧
    ¬(∀ (network : Network (Fin 3)) (trace : List (NetworkState (Fin 3) × Action (Fin 3)))
      (state : NetworkState (Fin 3)),
      network.system.Run trace state ->
        ∀ entry ∈ trace, ∀ next, network.step entry.1 entry.2 = some next -> NumbersRise entry.1 next) := by
  constructor
  · intro always
    obtain ⟨state, reached, routes⟩ := map_eq_some_iff.mp routes_after_silence
    obtain ⟨from1, from2⟩ := Prod.mk.inj routes
    have run : subnet.system.Run _ state := System.run_of_exec (show subnet.system.Initial atStart from rfl) reached
    exact always subnet _ state run (addressOf 0) 1
      (.tail (.single (nextHop_of_routeTo0 from1)) (nextHop_of_routeTo0 from2))
  · intro always
    obtain ⟨state, reached, numbers⟩ := bind_eq_some_iff.mp number_after_detour
    obtain ⟨next, expires, both⟩ := map_eq_some_iff.mp numbers
    obtain ⟨before, after⟩ := Prod.mk.inj both
    obtain ⟨rt, found, isSix⟩ := map_eq_some_iff.mp before
    obtain ⟨rt', found', isFour⟩ := map_eq_some_iff.mp after
    have run : subnet.system.Run _ state := System.run_of_exec (show subnet.system.Initial atStart from rfl) reached
    have transition : subnet.system.step state (.settled 1 (addressOf 0)) = some next := expires
    have rises := always subnet _ next (run.step transition) _ (mem_append_right _ (mem_singleton_self _)) next expires
    have le := rises 1 (addressOf 0) rt rt' found found'
    omega

end Network

end Ns3.Dsdv
