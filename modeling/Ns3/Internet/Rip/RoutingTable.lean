import Ns3.Network.Ipv4Address
import Ns3.Semantics.EventQueue
import Ns3.Semantics.Run

/-!
# The routing table of RIP

The entries that a router keeps, each with its event: a valid entry times out, another one is
deleted some time later. Responses of neighbours, these events and what happens to the interfaces
change the table. The updates that a router sends only read it.
-/

namespace Ns3.Internet

open Ns3.Network Ns3.Semantics

/-- What an event does, with the entry it is about. -/
inductive Expiry where
  | invalidateRoute (route : Nat)
  | deleteRoute (route : Nat)
  deriving DecidableEq

/-- The entry that an event is about. -/
def Expiry.route : Expiry -> Nat
  | .invalidateRoute route => route
  | .deleteRoute route => route

inductive RouteStatus where
  | valid
  | invalid
  deriving DecidableEq

structure RipRoutingTableEntry where
  /-- Which entry this is: entries are referred to by pointers. -/
  id : Nat
  destNetwork : Ipv4Address
  destNetworkMask : Ipv4Mask
  /-- The neighbour it was learned from, or `0.0.0.0`. -/
  gateway : Ipv4Address
  interface : Nat
  metric : Nat
  status : RouteStatus
  /-- When the status was last set to another one. The program does not keep it, and nothing reads
  it. -/
  statusSince : Int
  deriving DecidableEq

namespace RipRoutingTableEntry

variable (route : RipRoutingTableEntry)

def setRouteStatus (status : RouteStatus) (now : Int) : RipRoutingTableEntry :=
  if route.status ≠ status then { route with status := status, statusSince := now } else route

def setRouteMetric (metric : Nat) : RipRoutingTableEntry :=
  { route with metric := metric % 2 ^ 8 }

/-- An entry as it is made. -/
def make (id : Nat) (network : Ipv4Address) (networkPrefix : Ipv4Mask) (nextHop : Ipv4Address) (interface : Nat)
    (now : Int) : RipRoutingTableEntry where
  id := id
  destNetwork := network
  destNetworkMask := networkPrefix
  gateway := nextHop
  interface := interface
  metric := 0
  status := .invalid
  statusSince := now

def isGateway : Bool :=
  route.gateway ≠ .any

def isNetwork : Bool :=
  route.destNetworkMask ≠ .ones

end RipRoutingTableEntry

/-- A route in a response. -/
structure RipRte where
  addressPrefix : Ipv4Address
  subnetMask : Ipv4Mask
  routeMetric : Nat
  deriving DecidableEq

inductive AddressScope where
  | host
  | link
  | global
  deriving DecidableEq

/-- What is configured. Metrics of entries have eight bits. -/
structure RipConfig where
  /-- `LinkDownValue`. -/
  linkDown : Nat
  timeoutDelay : Nat
  garbageCollectionDelay : Nat
  interfaceExclusions : Nat -> Bool
  /-- 1 unless it is set. -/
  interfaceMetric : Nat -> Nat
  linkDown_gt : 1 < linkDown
  linkDown_lt : linkDown < 2 ^ 8

/-- An entry and its event, which is 0 as long as there was none. -/
abbrev RouteSlot :=
  RipRoutingTableEntry × Nat

structure Rip where
  routes : List RouteSlot
  /-- How many entries have been made. -/
  allocated : Nat
  queue : EventQueue Expiry

namespace Rip

variable (config : RipConfig)

variable (rip : Rip)

/-- The route that is used for an address that is not a local multicast one: of the valid entries
that match, the last one with the longest mask. -/
def lookup (dst : Ipv4Address) (interface : Option Nat) : Option RipRoutingTableEntry :=
  (rip.routes.foldl (fun found slot =>
    let maskLen := slot.1.destNetworkMask.getPrefixLength
    if slot.1.status = .valid ∧ slot.1.destNetworkMask.isMatch dst slot.1.destNetwork ∧
        (interface = none ∨ interface = some slot.1.interface) ∧ ¬ maskLen < found.1
    then (maskLen, some slot.1) else found) (0, none)).2

/-- Put an entry in the place of another one, cancel the event there and schedule one for the entry.
-/
def rearm (index : Nat) (route : RipRoutingTableEntry) (event delay : Nat) (expiry : Nat -> Expiry) : Rip :=
  let scheduled := (rip.queue.cancel event).schedule delay (expiry route.id)
  { rip with routes := rip.routes.set index (route, scheduled.2), queue := scheduled.1 }

/-- `new RipRoutingTableEntry`. -/
def newRoute (network : Ipv4Address) (networkPrefix : Ipv4Mask) (nextHop : Ipv4Address) (interface : Nat) :
    RipRoutingTableEntry × Rip :=
  (.make rip.allocated network networkPrefix nextHop interface rip.queue.now,
    { rip with allocated := rip.allocated + 1 })

def addNetworkRouteTo (network : Ipv4Address) (networkPrefix : Ipv4Mask) (interface : Nat) : Rip :=
  let made := rip.newRoute network networkPrefix .any interface
  let route := (made.1.setRouteMetric 1).setRouteStatus .valid rip.queue.now
  { made.2 with routes := made.2.routes ++ [(route, 0)] }

/-- Aborts if the entry is not there. -/
def invalidateRoute (id : Nat) : Option Rip :=
  (rip.routes.findIdx? fun slot => slot.1.id = id).bind fun index =>
    rip.routes[index]?.map fun slot =>
      let route := (slot.1.setRouteStatus .invalid rip.queue.now).setRouteMetric config.linkDown
      rip.rearm index route slot.2 config.garbageCollectionDelay .deleteRoute

/-- Aborts if the entry is not there. -/
def deleteRoute (id : Nat) : Option Rip :=
  (rip.routes.findIdx? fun slot => slot.1.id = id).map fun index =>
    { rip with routes := rip.routes.eraseIdx index }

/-- The time left until an event, none if it is not pending. -/
def getDelayLeft (event : Nat) : Int :=
  match rip.queue.entries.find? fun entry => entry.uid = event with
  | none => 0
  | some entry => entry.ts - rip.queue.now

variable (rte : RipRte)

def rteMetric (incomingInterface : Nat) : Nat :=
  min (rte.routeMetric + config.interfaceMetric incomingInterface) config.linkDown

/-- The network of a route. -/
def rteAddr : Ipv4Address :=
  rte.addressPrefix.combineMask rte.subnetMask

def matchesRte (route : RipRoutingTableEntry) : Bool :=
  route.destNetwork = rteAddr rte && route.destNetworkMask = rte.subnetMask

variable (senderAddress : Ipv4Address)

/-- What a route of a response does to an entry. -/
def updateRoute (incomingInterface : Nat) (rip : Rip) (index : Nat) : Option Rip :=
  let metric := rteMetric config rte incomingInterface
  match rip.routes[index]? with
  | none => some rip
  | some (it, event) =>
    if matchesRte rte it then
      if metric < it.metric then
        let replaced :=
          if senderAddress ≠ it.gateway then
            rip.newRoute (rteAddr rte) rte.subnetMask senderAddress incomingInterface
          else (it, rip)
        let route := (replaced.1.setRouteMetric metric).setRouteStatus .valid rip.queue.now
        some (replaced.2.rearm index route event config.timeoutDelay .invalidateRoute)
      else if metric = it.metric then
        if senderAddress = it.gateway then
          some (rip.rearm index it event config.timeoutDelay .invalidateRoute)
        else if rip.getDelayLeft event < config.timeoutDelay / 2 then
          let replaced := rip.newRoute (rteAddr rte) rte.subnetMask senderAddress incomingInterface
          let route := (replaced.1.setRouteMetric metric).setRouteStatus .valid rip.queue.now
          some (replaced.2.rearm index route event config.timeoutDelay .invalidateRoute)
        else some rip
      else if senderAddress = it.gateway then
        if metric < config.linkDown then
          let route := (it.setRouteMetric metric).setRouteStatus .valid rip.queue.now
          some (rip.rearm index route event config.timeoutDelay .invalidateRoute)
        else invalidateRoute config { rip with queue := rip.queue.cancel event } it.id
      else some rip
    else some rip

/-- A route that is new goes to the front. -/
def learnRoute (incomingInterface : Nat) : Rip :=
  let made := rip.newRoute (rteAddr rte) rte.subnetMask senderAddress incomingInterface
  let route := (made.1.setRouteMetric (rteMetric config rte incomingInterface)).setRouteStatus .valid rip.queue.now
  let scheduled := made.2.queue.schedule config.timeoutDelay (.invalidateRoute route.id)
  { made.2 with routes := (route, scheduled.2) :: made.2.routes, queue := scheduled.1 }

/-- One route of a response: all entries for its network are looked at. -/
def handleRte (incomingInterface : Nat) (rip : Rip) (rte : RipRte) : Option Rip :=
  let found := rip.routes.any fun slot => matchesRte rte slot.1
  ((List.range rip.routes.length).foldlM
    (updateRoute config rte senderAddress incomingInterface) rip).map fun updated =>
    if ¬ found ∧ rteMetric config rte incomingInterface ≠ config.linkDown
    then updated.learnRoute config rte senderAddress incomingInterface else updated

/-- A response with a route that is malformed is ignored. -/
def validRte : Bool :=
  ¬ (rte.routeMetric = 0 ∨ rte.routeMetric > config.linkDown) &&
    ¬ (rte.addressPrefix.isLocalhost || rte.addressPrefix.isBroadcast || rte.addressPrefix.isMulticast)

/-- Whether a response is heard. -/
def accepts (rtes : List RipRte) (incomingInterface : Nat) : Bool :=
  ¬ config.interfaceExclusions incomingInterface && rtes.all (validRte config)

def handleResponses (rtes : List RipRte) (senderAddress : Ipv4Address) (incomingInterface : Nat) : Option Rip :=
  if accepts config rtes incomingInterface then
    rtes.foldlM (handleRte config senderAddress incomingInterface) rip
  else some rip

/-- Invalidate an entry if it is one of some. -/
def invalidateIf (covered : RipRoutingTableEntry -> Bool) (rip : Rip) (index : Nat) : Option Rip :=
  match rip.routes[index]? with
  | none => some rip
  | some slot => if covered slot.1 then invalidateRoute config rip slot.1.id else some rip

/-- Invalidate some of the entries. -/
def invalidateAll (covered : RipRoutingTableEntry -> Bool) : Option Rip :=
  (List.range rip.routes.length).foldlM (invalidateIf config covered) rip

variable (interface : Nat)

/-- For an interface that is not a loopback one. -/
def notifyInterfaceUp (addresses : List (Ipv4InterfaceAddress × AddressScope)) : Rip :=
  addresses.foldl (fun rip address =>
    if address.2 = .global then
      rip.addNetworkRouteTo (address.1.localAddress.combineMask address.1.mask) address.1.mask interface
    else rip) rip

/-- The entries that an interface takes down with it. -/
def goesThrough (route : RipRoutingTableEntry) : Bool :=
  route.interface = interface

def notifyInterfaceDown : Option Rip :=
  rip.invalidateAll config (goesThrough interface)

def notifyAddAddress (isUp : Bool) (address : Ipv4InterfaceAddress) (scope : AddressScope) : Rip :=
  if isUp ∧ ¬ config.interfaceExclusions interface ∧ scope = .global then
    rip.addNetworkRouteTo (address.localAddress.combineMask address.mask) address.mask interface
  else rip

/-- The entries that an address takes with it. -/
def refersTo (address : Ipv4InterfaceAddress) (route : RipRoutingTableEntry) : Bool :=
  route.interface = interface && route.isNetwork &&
    route.destNetwork = address.localAddress.combineMask address.mask && route.destNetworkMask = address.mask

def notifyRemoveAddress (isUp : Bool) (address : Ipv4InterfaceAddress)
    (scope : AddressScope) : Option Rip :=
  if isUp ∧ scope = .global then rip.invalidateAll config (refersTo interface address) else some rip

/-- What happens to a router. -/
inductive Action where
  | response (rtes : List RipRte) (senderAddress : Ipv4Address) (incomingInterface : Nat)
  /-- The next event is due. -/
  | expire
  | wait (time : Int)
  | interfaceUp (interface : Nat) (addresses : List (Ipv4InterfaceAddress × AddressScope))
  | interfaceDown (interface : Nat)
  | addAddress (interface : Nat) (isUp : Bool) (address : Ipv4InterfaceAddress) (scope : AddressScope)
  | removeAddress (interface : Nat) (isUp : Bool) (address : Ipv4InterfaceAddress) (scope : AddressScope)

def expire : Option Rip :=
  rip.queue.takeNext?.bind fun taken =>
    match taken.1.callback with
    | .invalidateRoute route => invalidateRoute config { rip with queue := taken.2 } route
    | .deleteRoute route => deleteRoute { rip with queue := taken.2 } route

def step : Action -> Option Rip
  | .response rtes senderAddress incomingInterface => rip.handleResponses config rtes senderAddress incomingInterface
  | .expire => rip.expire config
  | .wait time => (rip.queue.advance? time).map fun queue => { rip with queue := queue }
  | .interfaceUp interface addresses => some (rip.notifyInterfaceUp interface addresses)
  | .interfaceDown interface => rip.notifyInterfaceDown config interface
  | .addAddress interface isUp address scope => some (rip.notifyAddAddress config interface isUp address scope)
  | .removeAddress interface isUp address scope => rip.notifyRemoveAddress config interface isUp address scope

/-- A router that has no entries yet. -/
def start : Rip where
  routes := []
  allocated := 0
  queue := .empty 0

def system : System Rip Action where
  Initial := (· = start)
  step := step config

end Rip

end Ns3.Internet
