import Ns3.Dsdv.OwnNumber
import Ns3.Semantics.RankedHops
import Ns3.Semantics.Run

/-!
# A network of nodes running DSDV

Updates once sent may reach any node at any later time, again and again, or not at all. Nodes move
as they like: who hears whom is left open. A routing loop is a way back to a node along the next
hops of the main tables.
-/

namespace Ns3.Dsdv

open Ns3.Network Ns3.Semantics

universe u

/-- The nodes, no two of which share an address. -/
structure Network (Node : Type u) where
  host : Node -> Host
  distinct : ∀ i j address, (host i).isLocal address -> (host j).isLocal address -> i = j

structure NetworkState (Node : Type u) where
  now : Nat
  nodes : Node -> RoutingProtocol
  sent : List Update

inductive Action (Node : Type u) where
  /-- An update arrives. -/
  | receive (node : Node) (update : Update)
  /-- A triggered update that was scheduled is due. -/
  | triggered (node : Node)
  /-- The settling time of a destination is over. -/
  | settled (node : Node) (dst : Ipv4Address)
  | periodic (node : Node)
  /-- A packet asks for a route. -/
  | routeOutput (node : Node)
  | wait (elapsed : Nat)

namespace Network

variable {Node : Type u} [DecidableEq Node]

/-- A node's state after it has sent updates. -/
def send (state : NetworkState Node) (node : Node) (result : RoutingProtocol × List Update) : NetworkState Node :=
  { state with nodes := Function.update state.nodes node result.1, sent := state.sent ++ result.2 }

/-- Packets from a node's own addresses are not taken in. -/
def step (network : Network Node) (state : NetworkState Node) : Action Node -> Option (NetworkState Node)
  | .receive node update =>
    let host := network.host node
    if update ∈ state.sent ∧ ¬host.isLocal update.sender then
      some { state with
        nodes := Function.update state.nodes node ((state.nodes node).recvDsdv host state.now update) }
    else none
  | .triggered node =>
    let current := state.nodes node
    if 0 < current.scheduled then
      some (send state node
        ({ current with scheduled := current.scheduled - 1 }.sendTriggeredUpdate (network.host node)))
    else none
  | .settled node dst =>
    let current := state.nodes node
    if current.anyRunningEvent dst then
      some (send state node
        ({ current with ipv4Events := current.ipv4Events.insert dst false }.sendTriggeredUpdate (network.host node)))
    else none
  | .periodic node => some (send state node ((state.nodes node).sendPeriodicUpdate (network.host node) state.now))
  | .routeOutput node =>
    some { state with
      nodes := Function.update state.nodes node ((state.nodes node).routeOutput (network.host node) state.now) }
  | .wait elapsed => some { state with now := state.now + elapsed }

def system (network : Network Node) : System (NetworkState Node) (Action Node) where
  Initial state := state = { now := 0, nodes := fun node => .start (network.host node), sent := [] }
  step := network.step

/-- The next hop of a node's route to a destination is an address of the other node. -/
def NextHop (network : Network Node) (state : NetworkState Node) (dst : Ipv4Address) (i j : Node) : Prop :=
  ∃ rt, (state.nodes i).routingTable.lookupRoute dst = some rt ∧ 0 < rt.hops ∧
    (network.host j).isLocal (rt.getNextHop (state.nodes i).routes)

def LoopFree (network : Network Node) (state : NetworkState Node) : Prop :=
  ∀ dst, RankedHops.LoopFree (network.NextHop state dst)

/-- No sequence number of an entry that stays in a main table falls. -/
def NumbersRise (state next : NetworkState Node) : Prop :=
  ∀ node dst rt rt', (state.nodes node).routingTable.lookupRoute dst = some rt ->
    (next.nodes node).routingTable.lookupRoute dst = some rt' -> rt.seqNo ≤ rt'.seqNo

/-- A header the node has sent. -/
def Told (network : Network Node) (state : NetworkState Node) (node : Node) (header : DsdvHeader) : Prop :=
  ∃ update ∈ state.sent, (network.host node).isLocal update.sender ∧ header ∈ update.headers

/-- What a node learns of a destination it has no entry for is new to its advertised table as well,
and newer than all it has told. -/
def LearnsFresh (network : Network Node) (state : NetworkState Node) : Action Node -> Prop
  | .receive node update =>
    RoutingProtocol.AllFresh (network.Told state node) (network.host node) state.now update.sender (state.nodes node)
      update.headers
  | _ => True

/-- No node's address is a broadcast address of another, or the loopback address. -/
structure BroadcastsFree (network : Network Node) : Prop where
  broadcast : ∀ i j, ∀ iface ∈ (network.host i).socketAddresses, i ≠ j -> iface.getBroadcast ≠ (network.host j).address
  notLoopback : ∀ i, (network.host i).address ≠ loopback

end Network

end Ns3.Dsdv
