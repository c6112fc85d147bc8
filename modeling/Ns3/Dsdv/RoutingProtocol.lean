import Ns3.Dsdv.RoutingTable

/-!
# A node running DSDV

`routingTable` holds the routes a node uses, `advRoutingTable` those it has yet to tell of. Sequence
numbers do not wrap, and time is what the caller says it is. An event of `ipv4Events` is a triggered
update to come at the end of a settling time, and is `true` until then.
-/

namespace Ns3.Dsdv

open Ns3.Network

/-- What an update says of one destination. -/
structure DsdvHeader where
  dst : Ipv4Address
  dstSeqno : Nat
  hopCount : Nat
  deriving DecidableEq

/-- An update in flight, with the address it was sent from. -/
structure Update where
  sender : Ipv4Address
  headers : List DsdvHeader
  deriving DecidableEq

/-- The part of a node that does not change: its interfaces, `interface1` being the one whose
address the node is known by. -/
structure Host where
  interface1 : Ipv4InterfaceAddress
  socketAddresses : List Ipv4InterfaceAddress
  holddownTime : Nat
  up : interface1 ∈ socketAddresses

namespace Host

def isLocal (host : Host) (address : Ipv4Address) : Bool :=
  host.socketAddresses.any fun iface => address = iface.localAddress

/-- The address the node advertises itself under. -/
def address (host : Host) : Ipv4Address :=
  host.interface1.localAddress

/-- The key of the entry that holds the node's own sequence number. -/
def ownBroadcast (host : Host) : Ipv4Address :=
  host.interface1.getBroadcast

end Host

/-- `scheduled` counts the triggered updates to come that no settling time is waited for. -/
structure RoutingProtocol where
  routingTable : RoutingTable
  advRoutingTable : RoutingTable
  ipv4Events : Std.TreeMap Ipv4Address Bool
  routes : Routes
  nextRoute : Nat
  scheduled : Nat

namespace RoutingProtocol

variable (node : RoutingProtocol)

/-- A new route object. -/
def newRoute (dst nextHop : Ipv4Address) : RoutingProtocol :=
  { node with routes := Function.update node.routes node.nextRoute ⟨dst, nextHop⟩, nextRoute := node.nextRoute + 1 }

/-- `SetNextHop` changes the route object, and with it all entries that share it. -/
def setNextHop (rt : RoutingTableEntry) (nextHop : Ipv4Address) : RoutingProtocol :=
  { node with
    routes := Function.update node.routes rt.ipv4Route { node.routes rt.ipv4Route with gateway := nextHop } }

variable (address : Ipv4Address)

/-- `AnyRunningEvent`: a settling time is running. -/
def anyRunningEvent : Bool :=
  node.ipv4Events[address]?.getD false

def addIpv4Event : RoutingProtocol :=
  { node with ipv4Events := node.ipv4Events.insertIfNew address true }

def forceDeleteIpv4Event : RoutingProtocol :=
  { node with ipv4Events := node.ipv4Events.erase address }

/-- `DeleteIpv4Event` leaves an event that is running. -/
def deleteIpv4Event : RoutingProtocol :=
  if node.anyRunningEvent address then node else node.forceDeleteIpv4Event address

def maximumSimulationTime : Nat :=
  0x7fffffffffffffff

def setIpv4 : RoutingProtocol :=
  let routes := fun _ => ⟨loopback, loopback⟩
  { routingTable := RoutingTable.addRoute routes ∅ ⟨0, 0, maximumSimulationTime, 0, .invalid, false⟩
    advRoutingTable := ∅, ipv4Events := ∅, routes := routes, nextRoute := 1, scheduled := 0 }

/-- Each interface has an entry of its own, for its broadcast address. -/
def notifyInterfaceUp (iface : Ipv4InterfaceAddress) : RoutingProtocol :=
  let rt := ⟨0, 0, maximumSimulationTime, node.nextRoute, .valid, false⟩
  let node := node.newRoute iface.getBroadcast iface.getBroadcast
  { node with routingTable := node.routingTable.addRoute node.routes rt }

variable (host : Host)

/-- `Start`, with the interfaces that are up. -/
def start : RoutingProtocol :=
  host.socketAddresses.foldl notifyInterfaceUp setIpv4

variable (now : Nat)

/-- The entry for a destination that is new, with a route object of its own. -/
def newEntry (node : RoutingProtocol) (header : DsdvHeader) : RoutingTableEntry :=
  ⟨header.dstSeqno, header.hopCount, now, node.nextRoute, .valid, true⟩

variable (sender : Ipv4Address)

/-- An update for a destination the node knows nothing of. -/
def receivedNewRoute (node : RoutingProtocol) (header : DsdvHeader) : RoutingProtocol :=
  let rt := newEntry now node header
  let node := node.newRoute header.dst sender
  { node with
    routingTable := node.routingTable.addRoute node.routes rt
    advRoutingTable := node.advRoutingTable.addRoute node.routes rt }

/-- The entry as an update changes it, apart from the next hop, which is not in the entry. -/
def updated (header : DsdvHeader) (rt : RoutingTableEntry) : RoutingTableEntry :=
  { rt with
    seqNo := header.dstSeqno, lifeTime := now, flag := .valid, entriesChanged := true, hops := header.hopCount }

/-- A better sequence number with the same metric: the update waits in the advertised table. -/
def sameMetric (node : RoutingProtocol) (header : DsdvHeader) (advEntry : RoutingTableEntry) :
    RoutingProtocol :=
  let node := node.setNextHop advEntry sender
  { node with advRoutingTable := node.advRoutingTable.update node.routes (updated now header advEntry) }

/-- A changed metric is used at once, but advertised only after the settling time. -/
def changedMetric (node : RoutingProtocol) (header : DsdvHeader)
    (advEntry : RoutingTableEntry) : RoutingProtocol :=
  let node := (node.setNextHop advEntry sender).addIpv4Event header.dst
  { node with
    routingTable := node.routingTable.update node.routes (updated now header advEntry)
    advRoutingTable := node.advRoutingTable.update node.routes (updated now header advEntry) }

/-- What is not worth keeping leaves the advertised table, unless its settling time is running. -/
def discard (dst : Ipv4Address) : RoutingProtocol :=
  if node.anyRunningEvent dst then node else { node with advRoutingTable := node.advRoutingTable.deleteRoute dst }

/-- The same sequence number and no better metric: the next hop keeps the route alive. -/
def sameOrWorse (node : RoutingProtocol) (dst : Ipv4Address) (advEntry : RoutingTableEntry) :
    RoutingProtocol :=
  if node.anyRunningEvent dst then node
  else
    let routingTable :=
      if advEntry.getNextHop node.routes = sender then
        node.routingTable.update node.routes { advEntry with lifeTime := now }
      else node.routingTable
    { node with routingTable, advRoutingTable := node.advRoutingTable.deleteRoute dst }

/-- An entry that went with the destination it was routed through: it leaves the table and is
announced as unreachable. -/
def unreachable (i : Ipv4Address × RoutingTableEntry) : RoutingProtocol :=
  let rt := { i.2 with seqNo := i.2.seqNo + 1, entriesChanged := true }
  { node with
    advRoutingTable := node.advRoutingTable.addRoute node.routes rt
    routingTable := node.routingTable.deleteRoute (rt.getDestination node.routes) }

/-- An infinite metric from the next hop. -/
def brokenLink (header : DsdvHeader) (advEntry : RoutingTableEntry) : RoutingProtocol :=
  let dstsWithNextHopSrc := node.routingTable.getListOfDestinationWithNextHop node.routes header.dst
  dstsWithNextHopSrc.foldl unreachable { node with
      routingTable := node.routingTable.deleteRoute header.dst
      advRoutingTable := node.advRoutingTable.update node.routes
        { advEntry with seqNo := header.dstSeqno, entriesChanged := true } }

/-- An update against the advertised entry: newer, of the same number, or older. -/
def compareAdvertised (node : RoutingProtocol) (header : DsdvHeader)
    (advEntry : RoutingTableEntry) : RoutingProtocol :=
  if header.dstSeqno % 2 ≠ 1 then
    if advEntry.seqNo < header.dstSeqno then
      let node := node.forceDeleteIpv4Event header.dst
      if header.hopCount ≠ advEntry.hops then node.changedMetric now sender header advEntry
      else node.sameMetric now sender header advEntry
    else if header.dstSeqno = advEntry.seqNo then
      if header.hopCount < advEntry.hops then
        (node.forceDeleteIpv4Event header.dst).changedMetric now sender header advEntry
      else node.sameOrWorse now sender header.dst advEntry
    else node.discard header.dst
  else if sender = advEntry.getNextHop node.routes then node.brokenLink header advEntry
  else node.discard header.dst

/-- An update for a destination the main table has an entry for. It is compared with the advertised
entry, which is the main one where there is none yet. -/
def compareWith (node : RoutingProtocol) (header : DsdvHeader) (fwdEntry : RoutingTableEntry) :
    RoutingProtocol :=
  let advEntry := (node.advRoutingTable.lookupRoute header.dst).getD fwdEntry
  compareAdvertised now sender { node with
    advRoutingTable := node.advRoutingTable.addRoute node.routes fwdEntry } header advEntry

/-- One header of `RecvDsdv`. What the node is itself is skipped. -/
def recvHeader (node : RoutingProtocol) (header : DsdvHeader) : RoutingProtocol :=
  if host.isLocal header.dst then node
  else
    match node.routingTable.lookupRoute header.dst with
    | none => if header.dstSeqno % 2 ≠ 1 then node.receivedNewRoute now sender header else node
    | some fwdEntry => node.compareWith now sender header fwdEntry

/-- `RecvDsdv` of a packet. A triggered update is scheduled in any case. -/
def recvDsdv (node : RoutingProtocol) (update : Update) : RoutingProtocol :=
  let node := update.headers.foldl (recvHeader host now update.sender) node
  { node with scheduled := node.scheduled + 1 }

/-- An advertised entry is used if it is a route, and leaves the advertised table. -/
def useAdvertised (rt : RoutingTableEntry) : RoutingProtocol :=
  let temp := { rt with flag := .valid, entriesChanged := false }
  { node with
    routingTable := if rt.seqNo % 2 = 0 then node.routingTable.update node.routes temp else node.routingTable
    advRoutingTable := node.advRoutingTable.deleteRoute (temp.getDestination node.routes) }

def triggerEntry (state : RoutingProtocol × List DsdvHeader) (i : Ipv4Address × RoutingTableEntry) :
    RoutingProtocol × List DsdvHeader :=
  let dst := i.2.getDestination state.1.routes
  if i.2.entriesChanged ∧ ¬state.1.anyRunningEvent dst then
    ((state.1.deleteIpv4Event dst).useAdvertised i.2, ⟨dst, i.2.seqNo, i.2.hops + 1⟩ :: state.2)
  else state

/-- The update sent through one interface, with the node's own entry in front, if there is anything
to tell. -/
def triggerInterface (allRoutes : List (Ipv4Address × RoutingTableEntry))
    (state : RoutingProtocol × List Update) (iface : Ipv4InterfaceAddress) : RoutingProtocol × List Update :=
  let told := allRoutes.foldl triggerEntry (state.1, [])
  if told.2.isEmpty then (told.1, state.2)
  else
    let temp2 := (told.1.routingTable.lookupRoute host.ownBroadcast).getD ⟨0, 0, 0, 0, .valid, false⟩
    (told.1, state.2 ++ [⟨iface.localAddress, ⟨host.address, temp2.seqNo, temp2.hops + 1⟩ :: told.2⟩])

/-- `SendTriggeredUpdate`, one packet for each interface. -/
def sendTriggeredUpdate (node : RoutingProtocol) : RoutingProtocol × List Update :=
  let allRoutes := node.advRoutingTable.getListOfAllRoutes node.routes
  host.socketAddresses.foldl (triggerInterface host allRoutes) (node, [])

def mergeEntry (i : Ipv4Address × RoutingTableEntry) : RoutingProtocol :=
  if i.2.entriesChanged ∧ ¬node.anyRunningEvent (i.2.getDestination node.routes) then node.useAdvertised i.2 else node

/-- `MergeTriggerPeriodicUpdates`: changes that have settled are taken into the main table. -/
def mergeTriggerPeriodicUpdates : RoutingProtocol :=
  (node.advRoutingTable.getListOfAllRoutes node.routes).foldl mergeEntry node

/-- The node's own entry is always there, once its interface is up. -/
def raiseOwn (node : RoutingProtocol) (seqNo : Nat) : RoutingProtocol :=
  match node.routingTable.lookupRoute host.ownBroadcast with
  | some ownEntry => { node with routingTable := node.routingTable.update node.routes { ownEntry with seqNo } }
  | none => node

/-- With each entry of an interface the node's own sequence number is set to two more than that
entry's. -/
def announceEntry (state : RoutingProtocol × List DsdvHeader) (i : Ipv4Address × RoutingTableEntry) :
    RoutingProtocol × List DsdvHeader :=
  if i.2.hops = 0 then
    (raiseOwn host state.1 (i.2.seqNo + 2), ⟨host.address, i.2.seqNo + 2, i.2.hops + 1⟩ :: state.2)
  else (state.1, ⟨i.2.getDestination state.1.routes, i.2.seqNo, i.2.hops + 1⟩ :: state.2)

/-- An entry that was purged is announced with the number after its own. -/
def removedHeader (routes : Routes) (rt : RoutingTableEntry) : DsdvHeader :=
  ⟨rt.getDestination routes, rt.seqNo + 1, rt.hops + 1⟩

def periodicInterface (allRoutes removedAddresses : List (Ipv4Address × RoutingTableEntry))
    (state : RoutingProtocol × List Update) (iface : Ipv4InterfaceAddress) : RoutingProtocol × List Update :=
  let told := allRoutes.foldl (announceEntry host) (state.1, [])
  let headers := removedAddresses.foldl (fun packet rm => removedHeader told.1.routes rm.2 :: packet) told.2
  (told.1, state.2 ++ [⟨iface.localAddress, headers⟩])

/-- What a periodic update starts with: routes past their hold-down time go, and what was advertised
is used. -/
def refresh (node : RoutingProtocol) : RoutingProtocol :=
  mergeTriggerPeriodicUpdates
    { node with routingTable := (node.routingTable.purge node.routes host.holddownTime now).1 }

/-- `SendPeriodicUpdate`, one packet for each interface. -/
def sendPeriodicUpdate (node : RoutingProtocol) : RoutingProtocol × List Update :=
  let removedAddresses := (node.routingTable.purge node.routes host.holddownTime now).2.toList
  let node := refresh host now node
  let allRoutes := node.routingTable.getListOfAllRoutes node.routes
  if allRoutes.isEmpty then (node, [])
  else host.socketAddresses.foldl (periodicInterface host allRoutes removedAddresses) (node, [])

/-- A route is asked for: what is past its hold-down time goes, and will be announced as
unreachable. -/
def routeOutput (node : RoutingProtocol) : RoutingProtocol :=
  let purged := node.routingTable.purge node.routes host.holddownTime now
  let removedAddresses := purged.2.toList
  { node with
    routingTable := purged.1
    advRoutingTable := removedAddresses.foldl (fun table rm =>
      table.addRoute node.routes { rm.2 with entriesChanged := true, seqNo := rm.2.seqNo + 1 }) node.advRoutingTable
    scheduled := if removedAddresses.isEmpty then node.scheduled else node.scheduled + 1 }

end RoutingProtocol

end Ns3.Dsdv
