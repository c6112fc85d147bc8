import Ns3.Network.Ipv4Address
import Ns3.Semantics.Layers

/-!
# The routing table of OLSR

`RoutingTableComputation` fills a table from the neighbours, the two-hop neighbours, the topology
and the interfaces that a node knows of, and refills the table of routes to associated networks.
-/

namespace Ns3.Olsr

open Network Semantics

structure IfaceAssocTuple where
  ifaceAddr : Ipv4Address
  mainAddr : Ipv4Address

structure LinkTuple where
  localIfaceAddr : Ipv4Address
  neighborIfaceAddr : Ipv4Address
  time : Int
  deriving DecidableEq

inductive NeighborStatus where
  | notSym
  | sym
  deriving DecidableEq

structure NeighborTuple where
  neighborMainAddr : Ipv4Address
  status : NeighborStatus
  willingness : UInt8

/-- `Willingness::NEVER`. -/
def never : UInt8 :=
  0

structure TwoHopNeighborTuple where
  neighborMainAddr : Ipv4Address
  twoHopNeighborAddr : Ipv4Address

structure TopologyTuple where
  destAddr : Ipv4Address
  lastAddr : Ipv4Address

structure Association where
  networkAddr : Ipv4Address
  netmask : Ipv4Mask
  deriving DecidableEq

structure AssociationTuple where
  gatewayAddr : Ipv4Address
  network : Association

structure RoutingTableEntry where
  destAddr : Ipv4Address
  nextAddr : Ipv4Address
  interface : Nat
  distance : Nat
  deriving DecidableEq

abbrev RoutingTable := Ipv4Address -> Option RoutingTableEntry

/-- A network route of the table for associated networks. -/
structure HnaRoute where
  network : Association
  gateway : Ipv4Address
  interface : Nat
  metric : Nat
  /-- Whether the current computation added the route. Nothing reads it. -/
  fresh : Bool
  deriving DecidableEq

/-- `OlsrState` with what else a computation reads. A network has one route at most, since routes
are only added for networks without one. -/
structure OlsrState where
  mainAddress : Ipv4Address
  /-- The addresses of each interface. -/
  interfaces : List (List Ipv4Address)
  now : Int
  neighborSet : List NeighborTuple := []
  linkSet : List LinkTuple := []
  twoHopNeighborSet : List TwoHopNeighborTuple := []
  topologySet : List TopologyTuple := []
  ifaceAssocSet : List IfaceAssocTuple := []
  associationSet : List AssociationTuple := []
  associations : List Association := []
  hnaRoutes : List HnaRoute := []
  hnaNodup : (hnaRoutes.map HnaRoute.network).Nodup := by decide

/-- `AddEntry`. -/
def RoutingTable.addEntry (table : RoutingTable) (dest next : Ipv4Address) (interface distance : Nat) : RoutingTable :=
  Function.update table dest (some ⟨dest, next, interface, distance⟩)

/-- `FindSendEntry`, with a bound on its iterations: the entry that a packet is sent by, or none
where a next hop has none. -/
def RoutingTable.findSendEntry (table : RoutingTable) : Nat -> RoutingTableEntry -> Option (Option RoutingTableEntry)
  | 0, _ => none
  | fuel + 1, entry =>
    if entry.destAddr = entry.nextAddr then some (some entry)
    else
      match table entry.nextAddr with
      | none => some none
      | some next => table.findSendEntry fuel next

namespace OlsrState

variable (state : OlsrState)

def getMainAddress (ifaceAddr : Ipv4Address) : Ipv4Address :=
  match state.ifaceAssocSet.find? fun tuple => tuple.ifaceAddr = ifaceAddr with
  | some tuple => tuple.mainAddr
  | none => ifaceAddr

/-- `FindSymNeighborTuple`. -/
def isSymNeighbor (mainAddr : Ipv4Address) : Bool :=
  state.neighborSet.any fun tuple => tuple.neighborMainAddr = mainAddr ∧ tuple.status = .sym

/-- The interface that `AddEntry` finds for a local address, and the first one where it asserts. -/
def interfaceOf (interfaceAddress : Ipv4Address) : Nat :=
  (state.interfaces.findIdx? fun addresses => interfaceAddress ∈ addresses).getD 0

/-- Where the loop over the links of a neighbour is. -/
structure LinkScan where
  table : RoutingTable
  nbMainAddr : Bool := false
  lt : Option LinkTuple := none

/-- Whether a link belongs to the neighbour and has not expired. -/
def isLinkOf (neighborMainAddr : Ipv4Address) (link : LinkTuple) : Bool :=
  state.getMainAddress link.neighborIfaceAddr = neighborMainAddr ∧ state.now ≤ link.time

def scanLink (neighborMainAddr : Ipv4Address) (scan : LinkScan) (link : LinkTuple) : LinkScan :=
  if state.isLinkOf neighborMainAddr link then
    { table := scan.table.addEntry link.neighborIfaceAddr link.neighborIfaceAddr
        (state.interfaceOf link.localIfaceAddr) 1
      nbMainAddr := scan.nbMainAddr || link.neighborIfaceAddr = neighborMainAddr
      lt := some link }
  else scan

variable (table : RoutingTable)

/-- Step 2 for one neighbour: entries for its interfaces, and one for its main address unless it is
one of them. -/
def addNeighbor (tuple : NeighborTuple) : RoutingTable :=
  if tuple.status = .sym then
    let scan := state.linkSet.foldl (state.scanLink tuple.neighborMainAddr) { table }
    match scan.nbMainAddr, scan.lt with
    | false, some lt =>
      scan.table.addEntry tuple.neighborMainAddr lt.neighborIfaceAddr (state.interfaceOf lt.localIfaceAddr) 1
    | _, _ => scan.table
  else table

/-- Whether step 3 considers a tuple: its address is no neighbour and not the node, and is seen by a
willing neighbour. -/
def isStrict (tuple : TwoHopNeighborTuple) : Bool :=
  !state.isSymNeighbor tuple.twoHopNeighborAddr && tuple.twoHopNeighborAddr ≠ state.mainAddress &&
    state.neighborSet.any fun neighbor =>
      neighbor.neighborMainAddr = tuple.neighborMainAddr ∧ neighbor.willingness ≠ never

/-- Step 3 for one tuple. -/
def addTwoHop (tuple : TwoHopNeighborTuple) : RoutingTable :=
  if state.isStrict tuple then
    match table tuple.neighborMainAddr with
    | some entry => table.addEntry tuple.twoHopNeighborAddr entry.nextAddr entry.interface 2
    | none => table
  else table

/-- Step 3.1 for one tuple in the round of distance `h`, with whether something was added. -/
def addTopology (h : Nat) (progress : RoutingTable × Bool) (tuple : TopologyTuple) : RoutingTable × Bool :=
  match progress.1 tuple.destAddr, progress.1 tuple.lastAddr with
  | none, some last =>
    if last.distance = h then (progress.1.addEntry tuple.destAddr last.nextAddr last.interface (h + 1), true)
    else progress
  | _, _ => progress

def topologyRound (h : Nat) (table : RoutingTable) : RoutingTable × Bool :=
  state.topologySet.foldl (addTopology h) (table, false)

/-- Step 4 for one tuple. -/
def addAlias (tuple : IfaceAssocTuple) : RoutingTable :=
  match table tuple.mainAddr, table tuple.ifaceAddr with
  | some entry, none => table.addEntry tuple.ifaceAddr entry.nextAddr entry.interface entry.distance
  | _, _ => table

/-- The loop that clears the table of network routes, from an index: it ends at the length the table
has by then. -/
def clearRoutes : Nat -> List HnaRoute -> List HnaRoute
  | _, [] => []
  | index, route :: routes => if index < routes.length + 1 then clearRoutes (index + 1) routes else route :: routes

variable (routes : List HnaRoute)

/-- `LookupRoute`. -/
def lookupRoute (route : HnaRoute) : Bool :=
  routes.any fun other =>
    other.network = route.network ∧ other.gateway = route.gateway ∧ other.interface = route.interface ∧
      other.metric = route.metric

/-- `AddNetworkRouteTo`. -/
def addNetworkRouteTo (network : Association) (entry : RoutingTableEntry) : List HnaRoute :=
  let route : HnaRoute := ⟨network, entry.nextAddr, entry.interface, entry.distance, true⟩
  if lookupRoute routes route then routes else routes ++ [route]

/-- Step 5 for one tuple. -/
def addAssociation (tuple : AssociationTuple) : List HnaRoute :=
  if tuple.network ∈ state.associations then routes
  else
    let routeIndex := routes.findIdx fun route => route.network = tuple.network
    match table tuple.gatewayAddr, routes[routeIndex]? with
    | some gatewayEntry, none => addNetworkRouteTo routes tuple.network gatewayEntry
    | some gatewayEntry, some route =>
      if route.metric > gatewayEntry.distance then
        addNetworkRouteTo (routes.eraseIdx routeIndex) tuple.network gatewayEntry
      else routes
    | none, _ => routes

/-- What a computation makes: the table when the aliases are added, and the tables at its end. -/
structure Computed where
  reached : RoutingTable
  table : RoutingTable
  hnaRoutes : List HnaRoute

/-- The routes of earlier computations. -/
def oldRoutes : List HnaRoute :=
  state.hnaRoutes.map fun route => { route with fresh := false }

def oneHopTable : RoutingTable :=
  state.neighborSet.foldl state.addNeighbor fun _ => none

def twoHopTable : RoutingTable :=
  state.twoHopNeighborSet.foldl state.addTwoHop state.oneHopTable

/-- `RoutingTableComputation`, with a bound on the rounds of step 3.1. -/
def routingTableComputation (fuel : Nat) : Option Computed :=
  (Layers.rounds state.topologyRound fuel 2 state.twoHopTable).map fun reached =>
    let table := state.ifaceAssocSet.foldl addAlias reached
    { reached, table
      hnaRoutes := state.associationSet.foldl (state.addAssociation table) (clearRoutes 0 state.oldRoutes) }

end OlsrState
end Ns3.Olsr
