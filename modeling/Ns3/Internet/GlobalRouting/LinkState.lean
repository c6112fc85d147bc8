import Mathlib.Data.List.Destutter
import Ns3.Network.Ipv4Address

/-!
# The link state database and the vertices of the shortest path tree

Vertices are referred to by pointers, and the pointers of link state advertisements lead into the
database, which does not change while the tree is built.
-/

namespace Ns3.Internet

open Ns3.Network

inductive LinkType where
  | unknown
  | pointToPoint
  | transitNetwork
  | stubNetwork
  | virtualLink
  deriving DecidableEq

structure GlobalRoutingLinkRecord where
  linkType : LinkType
  linkId : Ipv4Address
  linkData : Ipv4Address
  metric : UInt16
  deriving DecidableEq

inductive LsType where
  | unknown
  | routerLSA
  | networkLSA
  | summaryLSA
  | summaryLSA_ASBR
  | asExternalLSAs
  deriving DecidableEq

structure GlobalRoutingLSA where
  lsType : LsType
  linkStateId : Ipv4Address
  linkRecords : List GlobalRoutingLinkRecord
  networkLSANetworkMask : Ipv4Mask
  attachedRouters : List Ipv4Address
  deriving DecidableEq

/-- How far an advertisement has got. -/
inductive SPFStatus where
  | notExplored
  | candidate
  | inSpfTree
  deriving DecidableEq

/-- `m_database`, in the order of its addresses. -/
abbrev GlobalRouteManagerLSDB := List (Ipv4Address × GlobalRoutingLSA)

namespace GlobalRouteManagerLSDB

def getLSA (lsdb : GlobalRouteManagerLSDB) (addr : Ipv4Address) : Option (Fin lsdb.length) :=
  lsdb.findFinIdx? fun i => i.1 = addr

def getLSAByLinkData (lsdb : GlobalRouteManagerLSDB) (addr : Ipv4Address) : Option (Fin lsdb.length) :=
  lsdb.findFinIdx? fun i => i.2.linkRecords.any fun lr => lr.linkType = .transitNetwork && lr.linkData = addr

end GlobalRouteManagerLSDB

inductive VertexType where
  | unknown
  | router
  | network
  deriving DecidableEq

/-- A next hop, and the interface that leads to it. -/
abbrev NodeExit := Ipv4Address × Int

/-- A vertex, with pointers to other ones. -/
structure SPFVertex (lsdb : GlobalRouteManagerLSDB) where
  lsa : Fin lsdb.length
  distanceFromRoot : UInt32 := 0xffffffff
  ecmpRootExits : List NodeExit := []
  parents : List Nat := []
  children : List Nat := []

namespace SPFVertex

variable {lsdb : GlobalRouteManagerLSDB} (vertex : SPFVertex lsdb)

def getLSA : GlobalRoutingLSA :=
  lsdb[vertex.lsa].2

def vertexId : Ipv4Address :=
  vertex.getLSA.linkStateId

/-- As it is set by the constructor. -/
def vertexType : VertexType :=
  match vertex.getLSA.lsType with
  | .routerLSA => .router
  | .networkLSA => .network
  | _ => .unknown

def setParent (parent : Nat) : SPFVertex lsdb :=
  { vertex with parents := [parent] }

/-- Only one exit is kept. -/
def setRootExitDirection (nextHop : Ipv4Address) (id : Int) : SPFVertex lsdb :=
  { vertex with ecmpRootExits := [(nextHop, id)] }

/-- Asserts that there is exactly one. -/
def getRootExitDirection : Option NodeExit :=
  match vertex.ecmpRootExits with
  | [exit] => some exit
  | _ => none

variable (other : SPFVertex lsdb)

def inheritAllRootExitDirections : SPFVertex lsdb :=
  { vertex with ecmpRootExits := other.ecmpRootExits }

/-- The order of a pair. -/
def exitLe (first second : NodeExit) : Bool :=
  first.1.bits < second.1.bits || first.1.bits = second.1.bits && first.2 ≤ second.2

/-- `sort` and `unique`. -/
def mergeRootExitDirections : SPFVertex lsdb :=
  { vertex with
    ecmpRootExits := ((vertex.ecmpRootExits ++ other.ecmpRootExits).mergeSort exitLe).destutter (· ≠ ·) }

def mergeParent : SPFVertex lsdb :=
  { vertex with parents := ((vertex.parents ++ other.parents).mergeSort).destutter (· ≠ ·) }

/-- `CompareSPFVertex`: a network comes before a router at the same distance. -/
def before : Bool :=
  vertex.distanceFromRoot < other.distanceFromRoot ||
    vertex.distanceFromRoot = other.distanceFromRoot && vertex.vertexType = .network && other.vertexType = .router

end SPFVertex

end Ns3.Internet
