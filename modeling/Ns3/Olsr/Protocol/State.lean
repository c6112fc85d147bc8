import Mathlib.Tactic.Positivity
import Ns3.Network.Ipv4Address
import Ns3.Semantics.KeyedList

/-!
# What an OLSR node keeps

The messages of OLSR and the sets of tuples of a node, each in the order in which its tuples were
inserted. Times are in nanoseconds.
-/

namespace Ns3.Olsr.Protocol

open Network Semantics

structure LinkMessage where
  linkCode : UInt8
  neighborInterfaceAddresses : List Ipv4Address
  deriving DecidableEq

structure Hello where
  hTime : UInt8
  willingness : UInt8
  linkMessages : List LinkMessage
  deriving DecidableEq

structure Tc where
  ansn : UInt16
  neighborAddresses : List Ipv4Address
  deriving DecidableEq

structure Mid where
  interfaceAddresses : List Ipv4Address
  deriving DecidableEq

structure HnaAssociation where
  address : Ipv4Address
  mask : Ipv4Mask
  deriving DecidableEq

structure Hna where
  associations : List HnaAssociation
  deriving DecidableEq

/-- The body of a message, of the type that the header names. -/
inductive Message where
  | hello (hello : Hello)
  | tc (tc : Tc)
  | mid (mid : Mid)
  | hna (hna : Hna)
  deriving DecidableEq

def Message.isHello : Message -> Bool
  | hello _ => true
  | _ => false

def Message.isTc : Message -> Bool
  | tc _ => true
  | _ => false

structure MessageHeader where
  vTime : UInt8
  originatorAddress : Ipv4Address
  timeToLive : UInt8
  hopCount : UInt8
  messageSequenceNumber : UInt16
  message : Message
  deriving DecidableEq

/-- `EmfToSeconds`, in nanoseconds: `0.0625 (1 + a / 16) 2 ^ b` seconds, with `a` and `b` the two
halves of the octet. -/
def emfToTime (olsrFormat : UInt8) : Int :=
  (16 + (olsrFormat >>> 4).toNat) * 2 ^ (olsrFormat &&& 0xf).toNat * 3906250

namespace MessageHeader

def getVTime (header : MessageHeader) : Int :=
  emfToTime header.vTime

/-- What the copies of a message have in common. -/
def id (header : MessageHeader) : Ipv4Address × UInt16 :=
  (header.originatorAddress, header.messageSequenceNumber)

end MessageHeader

structure LinkTuple where
  localIfaceAddr : Ipv4Address
  neighborIfaceAddr : Ipv4Address
  symTime : Int
  asymTime : Int
  time : Int
  deriving DecidableEq

inductive NeighborStatus where
  | notSym
  | sym
  deriving DecidableEq

structure NeighborTuple where
  neighborMainAddr : Ipv4Address
  status : NeighborStatus
  willingness : UInt8
  deriving DecidableEq

structure TwoHopNeighborTuple where
  neighborMainAddr : Ipv4Address
  twoHopNeighborAddr : Ipv4Address
  expirationTime : Int
  deriving DecidableEq

structure MprSelectorTuple where
  mainAddr : Ipv4Address
  expirationTime : Int
  deriving DecidableEq

structure DuplicateTuple where
  address : Ipv4Address
  sequenceNumber : UInt16
  retransmitted : Bool
  ifaceList : List Ipv4Address
  expirationTime : Int
  deriving DecidableEq

structure TopologyTuple where
  destAddr : Ipv4Address
  lastAddr : Ipv4Address
  sequenceNumber : UInt16
  expirationTime : Int
  deriving DecidableEq

structure IfaceAssocTuple where
  ifaceAddr : Ipv4Address
  mainAddr : Ipv4Address
  time : Int
  deriving DecidableEq

structure AssociationTuple where
  gatewayAddr : Ipv4Address
  network : HnaAssociation
  expirationTime : Int
  deriving DecidableEq

def TwoHopNeighborTuple.addrs (tuple : TwoHopNeighborTuple) : Ipv4Address × Ipv4Address :=
  (tuple.neighborMainAddr, tuple.twoHopNeighborAddr)

def DuplicateTuple.id (tuple : DuplicateTuple) : Ipv4Address × UInt16 :=
  (tuple.address, tuple.sequenceNumber)

def TopologyTuple.addrs (tuple : TopologyTuple) : Ipv4Address × Ipv4Address :=
  (tuple.destAddr, tuple.lastAddr)

def AssociationTuple.id (tuple : AssociationTuple) : Ipv4Address × HnaAssociation :=
  (tuple.gatewayAddr, tuple.network)

structure OlsrState where
  linkSet : List LinkTuple := []
  neighborSet : List NeighborTuple := []
  twoHopNeighborSet : List TwoHopNeighborTuple := []
  mprSelectorSet : List MprSelectorTuple := []
  duplicateSet : List DuplicateTuple := []
  topologySet : List TopologyTuple := []
  ifaceAssocSet : List IfaceAssocTuple := []
  associationSet : List AssociationTuple := []
  deriving DecidableEq

namespace OlsrState

variable (state : OlsrState)

variable (ifaceAddr : Ipv4Address)

def findLinkTuple : Option LinkTuple :=
  KeyedList.lookup LinkTuple.neighborIfaceAddr ifaceAddr state.linkSet

def findSymLinkTuple (now : Int) : Option LinkTuple :=
  (state.findLinkTuple ifaceAddr).filter fun tuple => now < tuple.symTime

variable (mainAddr : Ipv4Address)

def findNeighborTuple : Option NeighborTuple :=
  KeyedList.lookup NeighborTuple.neighborMainAddr mainAddr state.neighborSet

variable (neighborMainAddr twoHopNeighborAddr : Ipv4Address)

def findTwoHopNeighborTuple : Option TwoHopNeighborTuple :=
  KeyedList.lookup TwoHopNeighborTuple.addrs (neighborMainAddr, twoHopNeighborAddr) state.twoHopNeighborSet

def findMprSelectorTuple : Option MprSelectorTuple :=
  KeyedList.lookup MprSelectorTuple.mainAddr mainAddr state.mprSelectorSet

def findDuplicateTuple (address : Ipv4Address) (sequenceNumber : UInt16) : Option DuplicateTuple :=
  KeyedList.lookup DuplicateTuple.id (address, sequenceNumber) state.duplicateSet

def findTopologyTuple (destAddr lastAddr : Ipv4Address) : Option TopologyTuple :=
  KeyedList.lookup TopologyTuple.addrs (destAddr, lastAddr) state.topologySet

def findNewerTopologyTuple (lastAddr : Ipv4Address) (ansn : UInt16) : Option TopologyTuple :=
  state.topologySet.find? fun tuple => tuple.lastAddr = lastAddr ∧ ansn < tuple.sequenceNumber

def findIfaceAssocTuple : Option IfaceAssocTuple :=
  KeyedList.lookup IfaceAssocTuple.ifaceAddr ifaceAddr state.ifaceAssocSet

variable (gatewayAddr : Ipv4Address)

variable (network : HnaAssociation)

def findAssociationTuple : Option AssociationTuple :=
  KeyedList.lookup AssociationTuple.id (gatewayAddr, network) state.associationSet

def getMainAddress : Ipv4Address :=
  match state.findIfaceAssocTuple ifaceAddr with
  | some tuple => tuple.mainAddr
  | none => ifaceAddr

def insertLinkTuple (tuple : LinkTuple) : OlsrState :=
  { state with linkSet := state.linkSet ++ [tuple] }

/-- Changes a link tuple that `FindLinkTuple` has returned a pointer to, as the functions below do
for other tuples. -/
def setLinkTuple (tuple : LinkTuple) : OlsrState :=
  { state with
    linkSet := KeyedList.modify LinkTuple.neighborIfaceAddr tuple.neighborIfaceAddr
      (fun _ => tuple) state.linkSet }

def eraseLinkTuple (tuple : LinkTuple) : OlsrState :=
  { state with
    linkSet := state.linkSet.eraseP fun link =>
      link.localIfaceAddr = tuple.localIfaceAddr ∧ link.neighborIfaceAddr = tuple.neighborIfaceAddr }

/-- Replaces the tuple of the main address if there is one. -/
def insertNeighborTuple (tuple : NeighborTuple) : OlsrState :=
  { state with
    neighborSet :=
      match state.findNeighborTuple tuple.neighborMainAddr with
      | some _ =>
        KeyedList.modify NeighborTuple.neighborMainAddr tuple.neighborMainAddr (fun _ => tuple) state.neighborSet
      | none => state.neighborSet ++ [tuple] }

def modifyNeighborTuple (change : NeighborTuple -> NeighborTuple) : OlsrState :=
  { state with neighborSet := KeyedList.modify NeighborTuple.neighborMainAddr mainAddr change state.neighborSet }

/-- `EraseNeighborTuple`, of a main address. -/
def eraseNeighborTuple : OlsrState :=
  { state with neighborSet := KeyedList.remove NeighborTuple.neighborMainAddr mainAddr state.neighborSet }

def insertTwoHopNeighborTuple (tuple : TwoHopNeighborTuple) : OlsrState :=
  { state with twoHopNeighborSet := state.twoHopNeighborSet ++ [tuple] }

variable (expirationTime : Int)

def modifyTwoHopNeighborTuple : OlsrState :=
  { state with
    twoHopNeighborSet :=
      KeyedList.modify TwoHopNeighborTuple.addrs (neighborMainAddr, twoHopNeighborAddr)
        (fun tuple => { tuple with expirationTime := expirationTime }) state.twoHopNeighborSet }

/-- `EraseTwoHopNeighborTuple`, of a tuple with these addresses. -/
def eraseTwoHopNeighborTuple : OlsrState :=
  { state with
    twoHopNeighborSet :=
      KeyedList.remove TwoHopNeighborTuple.addrs (neighborMainAddr, twoHopNeighborAddr) state.twoHopNeighborSet }

/-- `EraseTwoHopNeighborTuples`, with both addresses. -/
def eraseTwoHopNeighborTuples : OlsrState :=
  { state with
    twoHopNeighborSet :=
      state.twoHopNeighborSet.filter fun tuple => tuple.addrs ≠ (neighborMainAddr, twoHopNeighborAddr) }

/-- `EraseTwoHopNeighborTuples`, with the address of the neighbour. -/
def eraseTwoHopNeighborTuplesOf (neighborMainAddr : Ipv4Address) : OlsrState :=
  { state with
    twoHopNeighborSet := state.twoHopNeighborSet.filter fun tuple => tuple.neighborMainAddr ≠ neighborMainAddr }

def insertMprSelectorTuple (tuple : MprSelectorTuple) : OlsrState :=
  { state with mprSelectorSet := state.mprSelectorSet ++ [tuple] }

def modifyMprSelectorTuple : OlsrState :=
  { state with
    mprSelectorSet :=
      KeyedList.modify MprSelectorTuple.mainAddr mainAddr (fun tuple => { tuple with expirationTime := expirationTime })
        state.mprSelectorSet }

def eraseMprSelectorTuple : OlsrState :=
  { state with mprSelectorSet := KeyedList.remove MprSelectorTuple.mainAddr mainAddr state.mprSelectorSet }

def eraseMprSelectorTuples : OlsrState :=
  { state with mprSelectorSet := state.mprSelectorSet.filter fun tuple => tuple.mainAddr ≠ mainAddr }

def insertDuplicateTuple (tuple : DuplicateTuple) : OlsrState :=
  { state with duplicateSet := state.duplicateSet ++ [tuple] }

def modifyDuplicateTuple (id : Ipv4Address × UInt16) (change : DuplicateTuple -> DuplicateTuple) : OlsrState :=
  { state with duplicateSet := KeyedList.modify DuplicateTuple.id id change state.duplicateSet }

def eraseDuplicateTuple (id : Ipv4Address × UInt16) : OlsrState :=
  { state with duplicateSet := KeyedList.remove DuplicateTuple.id id state.duplicateSet }

def insertTopologyTuple (tuple : TopologyTuple) : OlsrState :=
  { state with topologySet := state.topologySet ++ [tuple] }

def modifyTopologyTuple (destAddr lastAddr : Ipv4Address) (expirationTime : Int) : OlsrState :=
  { state with
    topologySet :=
      KeyedList.modify TopologyTuple.addrs (destAddr, lastAddr)
        (fun tuple => { tuple with expirationTime := expirationTime }) state.topologySet }

def eraseTopologyTuple (tuple : TopologyTuple) : OlsrState :=
  { state with
    topologySet := state.topologySet.eraseP fun other =>
      other.addrs = tuple.addrs ∧ other.sequenceNumber = tuple.sequenceNumber }

def eraseOlderTopologyTuples (lastAddr : Ipv4Address) (ansn : UInt16) : OlsrState :=
  { state with
    topologySet := state.topologySet.filter fun tuple => ¬(tuple.lastAddr = lastAddr ∧ tuple.sequenceNumber < ansn) }

def insertIfaceAssocTuple (tuple : IfaceAssocTuple) : OlsrState :=
  { state with ifaceAssocSet := state.ifaceAssocSet ++ [tuple] }

def eraseIfaceAssocTuple (tuple : IfaceAssocTuple) : OlsrState :=
  { state with
    ifaceAssocSet := state.ifaceAssocSet.eraseP fun other =>
      other.ifaceAddr = tuple.ifaceAddr ∧ other.mainAddr = tuple.mainAddr }

def insertAssociationTuple (tuple : AssociationTuple) : OlsrState :=
  { state with associationSet := state.associationSet ++ [tuple] }

def modifyAssociationTuple : OlsrState :=
  { state with
    associationSet :=
      KeyedList.modify AssociationTuple.id (gatewayAddr, network)
        (fun tuple => { tuple with expirationTime := expirationTime }) state.associationSet }

def eraseAssociationTuple : OlsrState :=
  { state with associationSet := KeyedList.remove AssociationTuple.id (gatewayAddr, network) state.associationSet }

end OlsrState

end Ns3.Olsr.Protocol
