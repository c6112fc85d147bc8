import Ns3.Olsr.Protocol.State

/-!
# Link sensing

What a HELLO message changes: the link to its sender, the neighbour that the link leads to, the
neighbours of that neighbour, and whether the sender has selected this node to relay for it.
-/

namespace Ns3.Olsr.Protocol

open Network

/-- The events that a node schedules for its tuples. -/
inductive Expiry where
  | link (neighborIfaceAddr : Ipv4Address)
  | twoHopNeighbor (neighborMainAddr twoHopNeighborAddr : Ipv4Address)
  | mprSelector (mainAddr : Ipv4Address)
  | duplicate (address : Ipv4Address) (sequenceNumber : UInt16)
  | topology (destAddr lastAddr : Ipv4Address)
  | ifaceAssoc (ifaceAddr : Ipv4Address)
  | association (gatewayAddr : Ipv4Address) (network : HnaAssociation)
  deriving DecidableEq

/-- The routing protocol of a node. What is derived from the sets, the relays that it has selected
and the routing table, is left out. -/
structure RoutingProtocol where
  mainAddress : Ipv4Address
  helloInterval : Int
  now : Int := 0
  state : OlsrState := {}
  ansn : UInt16 := 65535
  messageSequenceNumber : UInt16 := 65535
  linkTupleTimerFirstTime : Bool := true
  queuedMessages : List MessageHeader := []
  events : List (Int × Expiry) := []
  deriving DecidableEq

/-- `Seconds(1)`. -/
def second : Int :=
  1000000000

/-- `OLSR_DUP_HOLD_TIME`. -/
def dupHoldTime : Int :=
  30 * second

/-- `Willingness::DEFAULT`. -/
def defaultWillingness : UInt8 :=
  3

namespace LinkMessage

variable (linkMessage : LinkMessage)

def linkType : UInt8 :=
  linkMessage.linkCode &&& 3

def neighborType : UInt8 :=
  linkMessage.linkCode >>> 2 &&& 3

end LinkMessage

/-- `LinkType`, where `UNSPEC_LINK` is `0`. -/
def asymLink : UInt8 :=
  1

def symLink : UInt8 :=
  2

def lostLink : UInt8 :=
  3

/-- `NeighborType`. -/
def notNeigh : UInt8 :=
  0

def symNeigh : UInt8 :=
  1

def mprNeigh : UInt8 :=
  2

def LinkMessage.isInvalid (linkMessage : LinkMessage) : Bool :=
  linkMessage.linkType = symLink ∧ linkMessage.neighborType = notNeigh ∨
    linkMessage.neighborType ≠ symNeigh ∧ linkMessage.neighborType ≠ mprNeigh ∧ linkMessage.neighborType ≠ notNeigh

namespace RoutingProtocol

variable (node : RoutingProtocol)

def getMainAddress (ifaceAddr : Ipv4Address) : Ipv4Address :=
  node.state.getMainAddress ifaceAddr

/-- `OLSR_NEIGHB_HOLD_TIME`. -/
def neighbHoldTime : Int :=
  3 * node.helloInterval

/-- `DELAY`. -/
def delay (time : Int) : Int :=
  if time < node.now then 1000 else time - node.now + 1000

def schedule (delay : Int) (expiry : Expiry) : RoutingProtocol :=
  { node with events := node.events ++ [(node.now + delay, expiry)] }

def incrementAnsn : RoutingProtocol :=
  { node with ansn := node.ansn + 1 }

def addNeighborTuple (tuple : NeighborTuple) : RoutingProtocol :=
  { node with state := node.state.insertNeighborTuple tuple }.incrementAnsn

def addMprSelectorTuple (tuple : MprSelectorTuple) : RoutingProtocol :=
  { node with state := node.state.insertMprSelectorTuple tuple }.incrementAnsn

def removeMprSelectorTuple (tuple : MprSelectorTuple) : RoutingProtocol :=
  { node with state := node.state.eraseMprSelectorTuple tuple.mainAddr }.incrementAnsn

variable (tuple : LinkTuple)

def linkTupleAdded (willingness : UInt8) : RoutingProtocol :=
  node.addNeighborTuple {
    neighborMainAddr := node.getMainAddress tuple.neighborIfaceAddr
    status := if node.now ≤ tuple.symTime then .sym else .notSym
    willingness := willingness }

/-- Whether some link to the neighbour is symmetric. -/
def hasSymmetricLink (mainAddr : Ipv4Address) : Bool :=
  node.state.linkSet.any fun link => node.getMainAddress link.neighborIfaceAddr = mainAddr ∧ node.now ≤ link.symTime

/-- What `LinkTupleUpdated` does with the tuple of the neighbour. -/
def updateStatus (mainAddr : Ipv4Address) : RoutingProtocol :=
  { node with
    state := node.state.modifyNeighborTuple mainAddr fun tuple =>
      { tuple with status := if node.hasSymmetricLink mainAddr then .sym else .notSym } }

def linkTupleUpdated (willingness : UInt8) : RoutingProtocol :=
  let mainAddr := node.getMainAddress tuple.neighborIfaceAddr
  match node.state.findNeighborTuple mainAddr with
  | some _ => node.updateStatus mainAddr
  | none => (node.linkTupleAdded tuple willingness).updateStatus mainAddr

def removeLinkTuple : RoutingProtocol :=
  { node with
    state := (node.state.eraseNeighborTuple (node.getMainAddress tuple.neighborIfaceAddr)).eraseLinkTuple tuple }

def neighborLoss : RoutingProtocol :=
  let mainAddr := node.getMainAddress tuple.neighborIfaceAddr
  let updated := node.linkTupleUpdated tuple defaultWillingness
  { updated with
    state := (updated.state.eraseTwoHopNeighborTuplesOf mainAddr).eraseMprSelectorTuples mainAddr }

/-- What the loop over the link messages changes. -/
structure Sensing where
  link : LinkTuple
  updated : Bool

/-- One link message. The program stops where the link is listed without a type. -/
def senseLinkMessage (vTime : Int) (receiverIface : Ipv4Address) (sensing : Sensing) (linkMessage : LinkMessage) :
    Option Sensing :=
  if linkMessage.isInvalid then some sensing
  else if receiverIface ∈ linkMessage.neighborInterfaceAddresses then
    if linkMessage.linkType = lostLink then
      some ⟨{ sensing.link with symTime := node.now - second }, true⟩
    else if linkMessage.linkType = symLink ∨ linkMessage.linkType = asymLink then
      some ⟨{ sensing.link with
        symTime := node.now + vTime
        time := node.now + vTime + node.neighbHoldTime }, true⟩
    else none
  else some sensing

variable (header : MessageHeader)

variable (hello : Hello)

/-- The link as the loop over the link messages leaves it, from what it was before. -/
def senseLink (receiverIface : Ipv4Address) (link : LinkTuple) (created : Bool) :
    Option Sensing := do
  let sensing ← hello.linkMessages.foldlM (node.senseLinkMessage header.getVTime receiverIface)
    ⟨{ link with asymTime := node.now + header.getVTime }, !created⟩
  return { sensing with link := { sensing.link with time := max sensing.link.time sensing.link.asymTime } }

variable (receiverIface senderIface : Ipv4Address)

def newLinkTuple : LinkTuple where
  localIfaceAddr := receiverIface
  neighborIfaceAddr := senderIface
  symTime := node.now - second
  asymTime := 0
  time := node.now + header.getVTime

def storeLink (created : Bool) (link : LinkTuple) : RoutingProtocol :=
  { node with state := if created then node.state.insertLinkTuple link else node.state.setLinkTuple link }

/-- What is done with a link once its times are known. -/
def linkSensed (created : Bool) (sensing : Sensing) (willingness : UInt8) : RoutingProtocol :=
  let stored := node.storeLink created sensing.link
  let updated := if sensing.updated then stored.linkTupleUpdated sensing.link willingness else stored
  if created then
    (updated.linkTupleAdded sensing.link willingness).schedule (node.delay (min sensing.link.time sensing.link.symTime))
      (.link sensing.link.neighborIfaceAddr)
  else updated

def linkSensing : Option RoutingProtocol :=
  match node.state.findLinkTuple senderIface with
  | none =>
    (node.senseLink header hello receiverIface
      (node.newLinkTuple header receiverIface senderIface) true).map fun sensing =>
      node.linkSensed true sensing hello.willingness
  | some link =>
    (node.senseLink header hello receiverIface link false).map fun sensing =>
      node.linkSensed false sensing hello.willingness

def populateNeighborSet : RoutingProtocol :=
  { node with
    state := node.state.modifyNeighborTuple header.originatorAddress fun tuple =>
      { tuple with willingness := hello.willingness } }

/-- One address that a neighbour lists. -/
def populateTwoHopAddress (neighborType : UInt8) (node : RoutingProtocol) (address : Ipv4Address) :
    RoutingProtocol :=
  let nb2hopAddr := node.getMainAddress address
  let expirationTime := node.now + header.getVTime
  if neighborType = symNeigh ∨ neighborType = mprNeigh then
    if nb2hopAddr = node.mainAddress then node
    else
      match node.state.findTwoHopNeighborTuple header.originatorAddress nb2hopAddr with
      | none =>
        { node with
          state := node.state.insertTwoHopNeighborTuple
            ⟨header.originatorAddress, nb2hopAddr, expirationTime⟩ }.schedule
            (node.delay expirationTime) (.twoHopNeighbor header.originatorAddress nb2hopAddr)
      | some _ =>
        { node with
          state := node.state.modifyTwoHopNeighborTuple header.originatorAddress nb2hopAddr expirationTime }
  else if neighborType = notNeigh then
    { node with state := node.state.eraseTwoHopNeighborTuples header.originatorAddress nb2hopAddr }
  else node

def populateTwoHopMessage (node : RoutingProtocol) (linkMessage : LinkMessage) : RoutingProtocol :=
  linkMessage.neighborInterfaceAddresses.foldl (populateTwoHopAddress header linkMessage.neighborType) node

def populateTwoHopLink (node : RoutingProtocol) (link : LinkTuple) : RoutingProtocol :=
  if node.getMainAddress link.neighborIfaceAddr = header.originatorAddress ∧ node.now ≤ link.symTime then
    hello.linkMessages.foldl (populateTwoHopMessage header) node
  else node

def populateTwoHopNeighborSet : RoutingProtocol :=
  node.state.linkSet.foldl (populateTwoHopLink header hello) node

/-- One address that a neighbour lists with the type of its relays. -/
def populateMprSelectorAddress (node : RoutingProtocol) (address : Ipv4Address) : RoutingProtocol :=
  let expirationTime := node.now + header.getVTime
  if node.getMainAddress address = node.mainAddress then
    match node.state.findMprSelectorTuple header.originatorAddress with
    | none =>
      (node.addMprSelectorTuple ⟨header.originatorAddress, expirationTime⟩).schedule (node.delay expirationTime)
        (.mprSelector header.originatorAddress)
    | some _ => { node with state := node.state.modifyMprSelectorTuple header.originatorAddress expirationTime }
  else node

/-- All the bits above the link type are compared here. -/
def populateMprSelectorMessage (node : RoutingProtocol) (linkMessage : LinkMessage) :
    RoutingProtocol :=
  if linkMessage.linkCode >>> 2 = mprNeigh then
    linkMessage.neighborInterfaceAddresses.foldl (populateMprSelectorAddress header) node
  else node

def populateMprSelectorSet : RoutingProtocol :=
  hello.linkMessages.foldl (populateMprSelectorMessage header) node

def processHello : Option RoutingProtocol :=
  (node.linkSensing header hello receiverIface senderIface).map fun sensed =>
    ((sensed.populateNeighborSet header hello).populateTwoHopNeighborSet header
      hello).populateMprSelectorSet header hello

end RoutingProtocol

end Ns3.Olsr.Protocol
