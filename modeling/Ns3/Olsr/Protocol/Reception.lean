import Ns3.Olsr.Protocol.LinkSensing
import Ns3.Semantics.Transitions

/-!
# Reception and expiry

What TC, MID and HNA messages change, how messages are forwarded, and what the events of a node do.
`protocol` is the node as a whole: it takes messages and events in the order of their times, and
sends messages of its own when it likes.
-/

namespace Ns3.Olsr.Protocol

open Network Semantics Option

namespace RoutingProtocol

variable (node : RoutingProtocol)

variable (header : MessageHeader)

/-- One advertised neighbour. -/
def processTcAddress (ansn : UInt16) (node : RoutingProtocol) (addr : Ipv4Address) :
    RoutingProtocol :=
  let expirationTime := node.now + header.getVTime
  match node.state.findTopologyTuple addr header.originatorAddress with
  | some _ =>
    { node with state := node.state.modifyTopologyTuple addr header.originatorAddress expirationTime }
  | none =>
    { node with
      state := node.state.insertTopologyTuple ⟨addr, header.originatorAddress, ansn, expirationTime⟩ }.schedule
        (node.delay expirationTime) (.topology addr header.originatorAddress)

def processTc (tc : Tc) (senderIface : Ipv4Address) : RoutingProtocol :=
  match node.state.findSymLinkTuple senderIface node.now with
  | none => node
  | some _ =>
    match node.state.findNewerTopologyTuple header.originatorAddress tc.ansn with
    | some _ => node
    | none =>
      tc.neighborAddresses.foldl (processTcAddress header tc.ansn)
        { node with state := node.state.eraseOlderTopologyTuples header.originatorAddress tc.ansn }

def isAssociationOf (ifaceAddr : Ipv4Address) (tuple : IfaceAssocTuple) : Bool :=
  tuple.ifaceAddr = ifaceAddr ∧ tuple.mainAddr = header.originatorAddress

/-- One listed interface. -/
def processMidAddress (node : RoutingProtocol) (ifaceAddr : Ipv4Address) : RoutingProtocol :=
  let time := node.now + header.getVTime
  if node.state.ifaceAssocSet.any (isAssociationOf header ifaceAddr) then
    { node with
      state := { node.state with
        ifaceAssocSet := node.state.ifaceAssocSet.map fun tuple =>
          if isAssociationOf header ifaceAddr tuple then { tuple with time := time } else tuple } }
  else
    { node with
      state := node.state.insertIfaceAssocTuple ⟨ifaceAddr, header.originatorAddress, time⟩ }.schedule (node.delay time)
        (.ifaceAssoc ifaceAddr)

/-- Gives neighbours and two-hop neighbours the main addresses that are now known. -/
def updateMainAddresses : RoutingProtocol :=
  { node with
    state := { node.state with
      neighborSet := node.state.neighborSet.map fun tuple =>
        { tuple with neighborMainAddr := node.getMainAddress tuple.neighborMainAddr }
      twoHopNeighborSet := node.state.twoHopNeighborSet.map fun tuple =>
        { tuple with
          neighborMainAddr := node.getMainAddress tuple.neighborMainAddr
          twoHopNeighborAddr := node.getMainAddress tuple.twoHopNeighborAddr } } }

def processMid (mid : Mid) (senderIface : Ipv4Address) : RoutingProtocol :=
  match node.state.findSymLinkTuple senderIface node.now with
  | none => node
  | some _ => (mid.interfaceAddresses.foldl (processMidAddress header) node).updateMainAddresses

/-- One associated network. -/
def processHnaAssociation (node : RoutingProtocol) (network : HnaAssociation) : RoutingProtocol :=
  let expirationTime := node.now + header.getVTime
  match node.state.findAssociationTuple header.originatorAddress network with
  | some _ => { node with state := node.state.modifyAssociationTuple header.originatorAddress network expirationTime }
  | none =>
    { node with
      state := node.state.insertAssociationTuple ⟨header.originatorAddress, network, expirationTime⟩ }.schedule
        (node.delay expirationTime) (.association header.originatorAddress network)

def processHna (hna : Hna) (senderIface : Ipv4Address) : RoutingProtocol :=
  match node.state.findSymLinkTuple senderIface node.now with
  | none => node
  | some _ => hna.associations.foldl (processHnaAssociation header) node

def queueMessage : RoutingProtocol :=
  { node with queuedMessages := node.queuedMessages ++ [header] }

/-- A message as it is sent on. -/
def relayed : MessageHeader :=
  { header with timeToLive := header.timeToLive - 1, hopCount := header.hopCount + 1 }

/-- Whether a message from the sender must be sent on. -/
def isRetransmitted (senderAddress : Ipv4Address) : Bool :=
  1 < header.timeToLive ∧ (node.state.findMprSelectorTuple (node.getMainAddress senderAddress)).isSome

variable (duplicated : Option DuplicateTuple)

/-- Updates the duplicate tuple of the message or makes one. -/
def recordDuplicate (localIface : Ipv4Address)
    (retransmitted : Bool) : RoutingProtocol :=
  match duplicated with
  | some _ =>
    { node with
      state := node.state.modifyDuplicateTuple header.id fun tuple =>
        { tuple with
          expirationTime := node.now + dupHoldTime
          retransmitted := retransmitted
          ifaceList := tuple.ifaceList ++ [localIface] } }
  | none =>
    { node with
      state := node.state.insertDuplicateTuple {
        address := header.originatorAddress
        sequenceNumber := header.messageSequenceNumber
        expirationTime := node.now + dupHoldTime
        retransmitted := retransmitted
        ifaceList := [localIface] } }.schedule dupHoldTime
          (.duplicate header.originatorAddress header.messageSequenceNumber)

/-- Whether `ForwardDefault` considers a message and does not return early. -/
def isAccepted (senderAddress : Ipv4Address) : Bool :=
  (node.state.findSymLinkTuple senderAddress node.now).isSome ∧ ¬duplicated.any DuplicateTuple.retransmitted

def forwardDefault (localIface senderAddress : Ipv4Address) : RoutingProtocol :=
  if node.isAccepted duplicated senderAddress then
    if node.isRetransmitted header senderAddress then
      (node.queueMessage (relayed header)).recordDuplicate header duplicated localIface true
    else node.recordDuplicate header duplicated localIface false
  else node

def processMessage (receiverIface senderIface : Ipv4Address) : Option RoutingProtocol :=
  match header.message with
  | .hello hello => node.processHello header hello receiverIface senderIface
  | .tc tc => some (node.processTc header tc senderIface)
  | .mid mid => some (node.processMid header mid senderIface)
  | .hna hna => some (node.processHna header hna senderIface)

def isDropped : Bool :=
  header.timeToLive = 0 ∨ header.originatorAddress = node.mainAddress

/-- The loop of `RecvOlsr` over the messages of a packet, for one of them. -/
def recvMessage (receiverIface senderIface : Ipv4Address) : Option RoutingProtocol :=
  if node.isDropped header then some node
  else
    match node.state.findDuplicateTuple header.originatorAddress header.messageSequenceNumber with
    | none =>
      (node.processMessage header receiverIface senderIface).map fun processed =>
        if header.message.isHello then processed else processed.forwardDefault header none receiverIface senderIface
    | some duplicated =>
      if receiverIface ∈ duplicated.ifaceList ∨ header.message.isHello then some node
      else some (node.forwardDefault header (some duplicated) receiverIface senderIface)

/-- `SendHello`, `SendTc`, `SendMid` and `SendHna`, with the body that they send. -/
def sendMessage (vTime timeToLive : UInt8) (message : Message) : RoutingProtocol :=
  { node with messageSequenceNumber := node.messageSequenceNumber + 1 }.queueMessage {
    vTime := vTime
    originatorAddress := node.mainAddress
    timeToLive := timeToLive
    hopCount := 0
    messageSequenceNumber := node.messageSequenceNumber + 1
    message := message }

def tcMessage : Tc where
  ansn := node.ansn
  neighborAddresses := node.state.mprSelectorSet.map MprSelectorTuple.mainAddr

def tcTimerExpire (vTime : UInt8) : RoutingProtocol :=
  if node.state.mprSelectorSet = [] then node else node.sendMessage vTime 255 (.tc node.tcMessage)

def sendQueuedMessages : RoutingProtocol :=
  { node with queuedMessages := [] }

/-- What the events have in common: a tuple that is past its time is removed, and otherwise looked
at again then. -/
def expireAt (expirationTime : Int) (expiry : Expiry) (removed : RoutingProtocol) : RoutingProtocol :=
  if expirationTime < node.now then removed else node.schedule (node.delay expirationTime) expiry

def dupTupleTimerExpire (address : Ipv4Address) (sequenceNumber : UInt16) : RoutingProtocol :=
  match node.state.findDuplicateTuple address sequenceNumber with
  | none => node
  | some tuple =>
    node.expireAt tuple.expirationTime (.duplicate address sequenceNumber)
      { node with state := node.state.eraseDuplicateTuple tuple.id }

def linkTupleTimerExpire (neighborIfaceAddr : Ipv4Address) : RoutingProtocol :=
  match node.state.findLinkTuple neighborIfaceAddr with
  | none => node
  | some tuple =>
    if tuple.time < node.now then node.removeLinkTuple tuple
    else if tuple.symTime < node.now then
      let lost :=
        if node.linkTupleTimerFirstTime then { node with linkTupleTimerFirstTime := false }
        else node.neighborLoss tuple
      lost.schedule (node.delay tuple.time) (.link neighborIfaceAddr)
    else node.schedule (node.delay (min tuple.time tuple.symTime)) (.link neighborIfaceAddr)

def nb2hopTupleTimerExpire (neighborMainAddr twoHopNeighborAddr : Ipv4Address) : RoutingProtocol :=
  match node.state.findTwoHopNeighborTuple neighborMainAddr twoHopNeighborAddr with
  | none => node
  | some tuple =>
    node.expireAt tuple.expirationTime (.twoHopNeighbor neighborMainAddr twoHopNeighborAddr)
      { node with state := node.state.eraseTwoHopNeighborTuple tuple.neighborMainAddr tuple.twoHopNeighborAddr }

def mprSelTupleTimerExpire (mainAddr : Ipv4Address) : RoutingProtocol :=
  match node.state.findMprSelectorTuple mainAddr with
  | none => node
  | some tuple => node.expireAt tuple.expirationTime (.mprSelector mainAddr) (node.removeMprSelectorTuple tuple)

def topologyTupleTimerExpire (destAddr lastAddr : Ipv4Address) : RoutingProtocol :=
  match node.state.findTopologyTuple destAddr lastAddr with
  | none => node
  | some tuple =>
    node.expireAt tuple.expirationTime (.topology destAddr lastAddr)
      { node with state := node.state.eraseTopologyTuple tuple }

def ifaceAssocTupleTimerExpire (ifaceAddr : Ipv4Address) : RoutingProtocol :=
  match node.state.findIfaceAssocTuple ifaceAddr with
  | none => node
  | some tuple =>
    node.expireAt tuple.time (.ifaceAssoc ifaceAddr) { node with state := node.state.eraseIfaceAssocTuple tuple }

def associationTupleTimerExpire (gatewayAddr : Ipv4Address) (network : HnaAssociation) : RoutingProtocol :=
  match node.state.findAssociationTuple gatewayAddr network with
  | none => node
  | some tuple =>
    node.expireAt tuple.expirationTime (.association gatewayAddr network)
      { node with state := node.state.eraseAssociationTuple tuple.gatewayAddr tuple.network }

def expire : Expiry -> RoutingProtocol
  | .link neighborIfaceAddr => node.linkTupleTimerExpire neighborIfaceAddr
  | .twoHopNeighbor neighborMainAddr twoHopNeighborAddr =>
      node.nb2hopTupleTimerExpire neighborMainAddr twoHopNeighborAddr
  | .mprSelector mainAddr => node.mprSelTupleTimerExpire mainAddr
  | .duplicate address sequenceNumber => node.dupTupleTimerExpire address sequenceNumber
  | .topology destAddr lastAddr => node.topologyTupleTimerExpire destAddr lastAddr
  | .ifaceAssoc ifaceAddr => node.ifaceAssocTupleTimerExpire ifaceAddr
  | .association gatewayAddr network => node.associationTupleTimerExpire gatewayAddr network

/-- Whether the clock may go on to a time: no event is scheduled before it. -/
def MayPass (time : Int) : Prop :=
  node.now ≤ time ∧ ∀ entry ∈ node.events, time ≤ entry.1

instance (time : Int) : Decidable (node.MayPass time) :=
  inferInstanceAs (Decidable (_ ∧ _))

def passTo (time : Int) : RoutingProtocol :=
  { node with now := time }

end RoutingProtocol

/-- What happens to a node, at a time. -/
inductive Action where
  | receive (time : Int) (receiverIface senderIface : Ipv4Address) (header : MessageHeader)
  | expire (time : Int) (expiry : Expiry)
  | tcTimer (time : Int) (vTime : UInt8)
  | send (time : Int) (vTime timeToLive : UInt8) (message : Message)
  | sendQueued (time : Int)

inductive Step : RoutingProtocol -> Action -> RoutingProtocol -> Prop where
  | receive {node time receiverIface senderIface header next} (mayPass : node.MayPass time)
      (received : (node.passTo time).recvMessage header receiverIface senderIface = some next) :
      Step node (.receive time receiverIface senderIface header) next
  | expire {node time expiry} (mayPass : node.MayPass time) (scheduled : (time, expiry) ∈ node.events) :
      Step node (.expire time expiry)
        (({ node with events := node.events.erase (time, expiry) }.passTo time).expire expiry)
  | tcTimer {node time vTime} (mayPass : node.MayPass time) :
      Step node (.tcTimer time vTime) ((node.passTo time).tcTimerExpire vTime)
  /-- A TC message is only sent by `TcTimerExpire`. -/
  | send {node time vTime timeToLive message} (mayPass : node.MayPass time) (other : message.isTc = false) :
      Step node (.send time vTime timeToLive message) ((node.passTo time).sendMessage vTime timeToLive message)
  | sendQueued {node time} (mayPass : node.MayPass time) :
      Step node (.sendQueued time) (node.passTo time).sendQueuedMessages

/-- What an action does, where it may happen. -/
def RoutingProtocol.perform (node : RoutingProtocol) : Action -> Option RoutingProtocol
  | .receive time receiverIface senderIface header =>
    if node.MayPass time then (node.passTo time).recvMessage header receiverIface senderIface else none
  | .expire time expiry =>
    if node.MayPass time ∧ (time, expiry) ∈ node.events then
      some (({ node with events := node.events.erase (time, expiry) }.passTo time).expire expiry)
    else none
  | .tcTimer time vTime => if node.MayPass time then some ((node.passTo time).tcTimerExpire vTime) else none
  | .send time vTime timeToLive message =>
    if node.MayPass time ∧ message.isTc = false then some ((node.passTo time).sendMessage vTime timeToLive message)
    else none
  | .sendQueued time => if node.MayPass time then some (node.passTo time).sendQueuedMessages else none

theorem step_of_perform {node next : RoutingProtocol} {action : Action} (performed : node.perform action = some next) :
    Step node action next := by
  cases action with
  | receive time receiverIface senderIface header =>
    obtain ⟨mayPass, received⟩ := ite_none_right_eq_some.1 performed
    exact .receive mayPass received
  | expire time expiry =>
    obtain ⟨⟨mayPass, scheduled⟩, same⟩ := ite_none_right_eq_some.1 performed
    exact some.inj same ▸ .expire mayPass scheduled
  | tcTimer time vTime =>
    obtain ⟨mayPass, same⟩ := ite_none_right_eq_some.1 performed
    exact some.inj same ▸ .tcTimer mayPass
  | send time vTime timeToLive message =>
    obtain ⟨⟨mayPass, other⟩, same⟩ := ite_none_right_eq_some.1 performed
    exact some.inj same ▸ .send mayPass other
  | sendQueued time =>
    obtain ⟨mayPass, same⟩ := ite_none_right_eq_some.1 performed
    exact some.inj same ▸ .sendQueued mayPass

/-- The interfaces of a node are associated with its main address when it starts. -/
def initialNode (mainAddress : Ipv4Address) (interfaces : List Ipv4Address) (helloInterval : Int) :
    RoutingProtocol where
  mainAddress := mainAddress
  helloInterval := helloInterval
  state := { ifaceAssocSet := interfaces.map fun ifaceAddr => ⟨ifaceAddr, mainAddress, 0⟩ }

def protocol : Transitions RoutingProtocol Action where
  Initial node := ∃ mainAddress interfaces helloInterval, node = initialNode mainAddress interfaces helloInterval
  Step := Step

end Ns3.Olsr.Protocol
