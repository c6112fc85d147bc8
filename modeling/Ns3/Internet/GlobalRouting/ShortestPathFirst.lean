import Ns3.Internet.GlobalRouting.LinkState
import Ns3.Semantics.Outcome

/-!
# Shortest path first

`SPFNext` looks at the links of a vertex of the tree, and at the next hops of the vertices they lead
to. For a network next to the root, `SPFNexthopCalculation` asks `SPFGetNextLink` for the links back
to it until there is none.
-/

namespace Ns3.Internet

open Ns3.Network Ns3.Semantics List

namespace GlobalRouteManagerImpl

/-! ## Links between two vertices -/

/-- The loop of `SPFGetNextLink`, over the records from some index on. -/
def nextLinkLoop (vertexId : Ipv4Address) :
    (skip foundPrevLink : Bool) -> (i : Nat) -> List GlobalRoutingLinkRecord -> Option (GlobalRoutingLinkRecord × Nat)
  | _, _, _, [] => none
  | skip, foundPrevLink, i, l :: rest =>
    if l.linkId = vertexId then
      if !foundPrevLink then nextLinkLoop vertexId skip true (i + 1) rest
      else if !skip then some (l, i)
      else nextLinkLoop vertexId false foundPrevLink (i + 1) rest
    else nextLinkLoop vertexId skip foundPrevLink (i + 1) rest

/-- A record of `v` that points to `w`, with its index. Which record `prevLink` is does not matter. -/
def spfGetNextLink (v : GlobalRoutingLSA) (w : Ipv4Address) (prevLink : Option (GlobalRoutingLinkRecord × Nat)) :
    Option (GlobalRoutingLinkRecord × Nat) :=
  nextLinkLoop w prevLink.isSome prevLink.isNone 0 v.linkRecords

/-- The records of `v` that point to `w`, with their indices. -/
def linksTo (v : GlobalRoutingLSA) (w : Ipv4Address) : List (GlobalRoutingLinkRecord × Nat) :=
  v.linkRecords.zipIdx.filter fun l => l.1.linkId = w

/-! ## The tree -/

variable {lsdb : GlobalRouteManagerLSDB}

/-- What a calculation works on, for one root. -/
structure SPF (lsdb : GlobalRouteManagerLSDB) where
  spfroot : Nat
  vertices : Nat -> Option (SPFVertex lsdb)
  /-- The next vertex that is made. -/
  nextVertex : Nat
  status : Fin lsdb.length -> SPFStatus
  /-- The candidate queue. -/
  candidate : List Nat

namespace SPF

variable (spf : SPF lsdb)

def vertex (v : Nat) : Outcome (SPFVertex lsdb) :=
  .ofOption (spf.vertices v)

def setVertex (v : Nat) (vertex : SPFVertex lsdb) : SPF lsdb :=
  { spf with vertices := Function.update spf.vertices v (some vertex) }

/-- `new SPFVertex`. -/
def newVertex (lsa : Fin lsdb.length) : SPF lsdb :=
  { spf with
    vertices := Function.update spf.vertices spf.nextVertex (some { lsa := lsa })
    nextVertex := spf.nextVertex + 1 }

def compareSPFVertex (v1 v2 : Nat) : Bool :=
  match spf.vertices v1, spf.vertices v2 with
  | some first, some second => first.before second
  | _, _ => false

/-- In front of the first candidate that it is before. -/
def pushInto (spf : SPF lsdb) (vNew : Nat) : List Nat -> List Nat
  | [] => [vNew]
  | i :: rest => if spf.compareSPFVertex vNew i then vNew :: i :: rest else i :: pushInto spf vNew rest

def push (vNew : Nat) : SPF lsdb :=
  { spf with candidate := spf.pushInto vNew spf.candidate }

def find (addr : Ipv4Address) : Option Nat :=
  spf.candidate.find? fun v => (spf.vertices v).any fun vertex => vertex.vertexId = addr

def reorder : SPF lsdb :=
  { spf with candidate := spf.candidate.mergeSort fun first second => !spf.compareSPFVertex second first }

/-- `SPFVertexAddParent`: the vertex becomes a child of each of its parents. -/
def spfVertexAddParent (v : Nat) : Outcome (SPF lsdb) := do
  let vertex ← spf.vertex v
  vertex.parents.foldlM (fun (spf : SPF lsdb) parent => do
    let parentVertex ← spf.vertex parent
    pure (spf.setVertex parent { parentVertex with children := parentVertex.children ++ [v] })) spf

/-- Delete a vertex that has no children, which must be a child of each of its parents. -/
def deleteVertex (v : Nat) : Outcome (SPF lsdb) := do
  let vertex ← spf.vertex v
  let spf ← vertex.parents.foldlM (fun (spf : SPF lsdb) parent => do
    let parentVertex ← spf.vertex parent
    Outcome.assert (v ∈ parentVertex.children)
    pure (spf.setVertex parent { parentVertex with children := parentVertex.children.filter (· ≠ v) })) spf
  pure { spf with vertices := Function.update spf.vertices v none }

end SPF

/-! ## Next hops -/

/-- The loop over the links of `w` back to the network `v`, for some rounds at most. -/
def nextHopLoop (v : SPFVertex lsdb) :
    (rounds : Nat) -> (linkRemote : Option (GlobalRoutingLinkRecord × Nat)) -> (w : SPFVertex lsdb) ->
      Outcome (SPFVertex lsdb)
  | 0, _, _ => .unfinished
  | rounds + 1, linkRemote, w =>
    match spfGetNextLink w.getLSA v.vertexId linkRemote with
    | none => .done w
    | some l =>
      match v.getRootExitDirection with
      | none => .aborted
      | some exit => nextHopLoop v rounds (some l) (w.setRootExitDirection l.1.linkData exit.2)

section

-- `FindOutgoingInterfaceId` for the node at the root is a function of an address and a mask
variable (findOutgoingInterfaceId : Ipv4Address -> Ipv4Mask -> Int) (rounds : Nat) (spf : SPF lsdb)

/-- What `w` learns of its exits from `v`. -/
def exitsThrough (v : Nat) (parent w : SPFVertex lsdb) (l : Option GlobalRoutingLinkRecord) :
    Outcome (SPFVertex lsdb) :=
  if v = spf.spfroot then
    if w.vertexType = .router then do
      let l ← Outcome.ofOption l
      let linkRemote ← Outcome.ofOption (spfGetNextLink w.getLSA parent.vertexId none)
      pure (w.setRootExitDirection linkRemote.1.linkData (findOutgoingInterfaceId l.linkData .ones))
    else do
      Outcome.assert (w.vertexType = .network)
      pure (w.setRootExitDirection ⟨0⟩ (findOutgoingInterfaceId w.vertexId w.getLSA.networkLSANetworkMask))
  else if parent.vertexType = .network then
    if parent.parents.head? = some spf.spfroot then do
      Outcome.assert (w.vertexType = .router)
      nextHopLoop parent rounds none w
    else pure (w.inheritAllRootExitDirections parent)
  else pure (w.inheritAllRootExitDirections parent)

def spfNexthopCalculation (v w : Nat) (l : Option GlobalRoutingLinkRecord) (distance : UInt32) :
    Outcome (SPF lsdb) := do
  let parent ← spf.vertex v
  let vertex ← spf.vertex w
  let vertex ← exitsThrough findOutgoingInterfaceId rounds spf v parent vertex l
  pure (spf.setVertex w { vertex with distanceFromRoot := distance, parents := [v] })

/-- What the loop of `SPFNext` looks at: a link of a router, or a router that is attached to a
network. -/
inductive Neighbour where
  | link (l : GlobalRoutingLinkRecord)
  | attached (router : Ipv4Address)

def neighbours (v : SPFVertex lsdb) : List Neighbour :=
  match v.vertexType with
  | .router => v.getLSA.linkRecords.map .link
  | .network => v.getLSA.attachedRouters.map .attached
  | .unknown => []

def Neighbour.link? : Neighbour -> Option GlobalRoutingLinkRecord
  | .link l => some l
  | .attached _ => none

/-- `w_lsa`; none if the loop goes on with the next neighbour. -/
def lsaOf (lsdb : GlobalRouteManagerLSDB) : Neighbour -> Outcome (Option (Fin lsdb.length))
  | .link l =>
    match l.linkType with
    | .stubNetwork => .done none
    | .pointToPoint => (Outcome.ofOption (lsdb.getLSA l.linkId)).bind fun lsa => .done (some lsa)
    | .transitNetwork => (Outcome.ofOption (lsdb.getLSA l.linkId)).bind fun lsa => .done (some lsa)
    | _ => .aborted
  | .attached router => .done (lsdb.getLSAByLinkData router)

/-- The distance to a neighbour of `v`. -/
def distanceTo (v : SPFVertex lsdb) (neighbour : Neighbour) : Outcome UInt32 :=
  if v.getLSA.lsType = .routerLSA then do
    let l ← Outcome.ofOption neighbour.link?
    pure (v.distanceFromRoot + l.metric.toUInt32)
  else pure v.distanceFromRoot

/-- A vertex that is a candidate already. -/
def considerCandidate (v : Nat) (wLsa : Fin lsdb.length) (l : Option GlobalRoutingLinkRecord) (distance : UInt32) :
    Outcome (SPF lsdb) := do
  let cw ← Outcome.ofOption (spf.find lsdb[wLsa].2.linkStateId)
  let candidate ← spf.vertex cw
  if candidate.distanceFromRoot < distance then pure spf
  else if candidate.distanceFromRoot = distance then do
    let w := spf.nextVertex
    let spf ← spfNexthopCalculation findOutgoingInterfaceId rounds (spf.newVertex wLsa) v w l distance
    let candidate ← spf.vertex cw
    let other ← spf.vertex w
    let spf := spf.setVertex cw ((candidate.mergeRootExitDirections other).mergeParent other)
    let spf ← spf.spfVertexAddParent w
    spf.deleteVertex w
  else do
    let spf ← spfNexthopCalculation findOutgoingInterfaceId rounds spf v cw l distance
    pure spf.reorder

/-- A round of the loop of `SPFNext`. -/
def consider (v : Nat) (spf : SPF lsdb) (neighbour : Neighbour) : Outcome (SPF lsdb) := do
  match ← lsaOf lsdb neighbour with
  | none => pure spf
  | some wLsa =>
    match spf.status wLsa with
    | .inSpfTree => pure spf
    | .notExplored => do
        let vertex ← spf.vertex v
        let distance ← distanceTo vertex neighbour
        let w := spf.nextVertex
        let spf ← spfNexthopCalculation findOutgoingInterfaceId rounds (spf.newVertex wLsa) v w neighbour.link? distance
        pure ({ spf with status := Function.update spf.status wLsa .candidate }.push w)
    | .candidate => do
        let vertex ← spf.vertex v
        let distance ← distanceTo vertex neighbour
        considerCandidate findOutgoingInterfaceId rounds spf v wLsa neighbour.link? distance

def spfNext (v : Nat) : Outcome (SPF lsdb) := do
  let vertex ← spf.vertex v
  (neighbours vertex).foldlM (consider findOutgoingInterfaceId rounds v) spf

end

/-! ## Which link is the next one -/

variable {vertexId : Ipv4Address} {records : List GlobalRoutingLinkRecord} {v : GlobalRoutingLSA} {w : Ipv4Address}

/-- Two links are left out if there is a previous one: one as the previous link, and one more. -/
theorem nextLinkLoop_eq (skip foundPrevLink : Bool) (i : Nat) : nextLinkLoop vertexId skip foundPrevLink i records =
    ((records.zipIdx i).filter fun l => l.1.linkId = vertexId)[(!foundPrevLink).toNat + skip.toNat]? := by
  induction records generalizing skip foundPrevLink i with
  | nil => rfl
  | cons l rest ih =>
    rw [nextLinkLoop, zipIdx_cons]
    by_cases points : l.linkId = vertexId
    · rw [if_pos points, filter_cons_of_pos (by simpa using points)]
      cases foundPrevLink with
      | false =>
        rw [ih]
        simp [Nat.add_comm 1]
      | true =>
        cases skip with
        | false => rfl
        | true =>
          rw [if_neg (by simp), ih]
          rfl
    · rw [if_neg points, filter_cons_of_neg (by simpa using points)]
      exact ih skip foundPrevLink (i + 1)

theorem spfGetNextLink_none : spfGetNextLink v w none = (linksTo v w)[0]? :=
  nextLinkLoop_eq false true 0

theorem spfGetNextLink_some (prevLink : GlobalRoutingLinkRecord × Nat) :
    spfGetNextLink v w (some prevLink) = (linksTo v w)[2]? :=
  nextLinkLoop_eq true false 0

/-! ## Repeated calls -/

/-- The links that repeated calls return, from a previous one on. -/
def enumerate (v : GlobalRoutingLSA) (w : Ipv4Address) :
    (rounds : Nat) -> (prevLink : Option (GlobalRoutingLinkRecord × Nat)) ->
    Outcome (List (GlobalRoutingLinkRecord × Nat))
  | 0, _ => .unfinished
  | rounds + 1, prevLink =>
    match spfGetNextLink v w prevLink with
    | none => .done []
    | some l => (enumerate v w rounds (some l)).bind fun rest => .done (l :: rest)

/-- Calls that start from null come to null, and return each link once until then. -/
def Enumerates (v : GlobalRoutingLSA) (w : Ipv4Address) : Prop :=
  ∃ rounds links, enumerate v w rounds none = .done links ∧ links.Nodup ∧ ∀ l, l ∈ links ↔ l ∈ linksTo v w

/-- With a third link, every call after the first one returns it. -/
theorem enumerate_unfinished {link : GlobalRoutingLinkRecord × Nat} (third : (linksTo v w)[2]? = some link)
    (prevLink : GlobalRoutingLinkRecord × Nat) (rounds : Nat) :
    enumerate v w rounds (some prevLink) = .unfinished := by
  induction rounds generalizing prevLink with
  | zero => rfl
  | succ rounds ih =>
    simp only [enumerate, spfGetNextLink_some, third]
    rw [ih]
    rfl

/-- Calls that come to null return the first link only. -/
theorem enumerate_done {rounds : Nat} {links : List (GlobalRoutingLinkRecord × Nat)}
    (isDone : enumerate v w rounds none = .done links) : (linksTo v w).length ≤ 2 ∧ links = (linksTo v w).take 1 := by
  cases rounds with
  | zero => cases isDone
  | succ rounds =>
    rw [enumerate, spfGetNextLink_none] at isDone
    cases isLinks : linksTo v w with
    | nil =>
      rw [isLinks] at isDone
      cases isDone
      exact ⟨Nat.zero_le 2, rfl⟩
    | cons first rest =>
      rw [isLinks] at isDone
      simp only [getElem?_cons_zero] at isDone
      cases third : (linksTo v w)[2]? with
      | some link =>
        rw [enumerate_unfinished third] at isDone
        cases isDone
      | none =>
        have few : (linksTo v w).length ≤ 2 := List.getElem?_eq_none_iff.mp third
        cases rounds with
        | zero => cases isDone
        | succ rounds =>
          simp only [enumerate, spfGetNextLink_some, third] at isDone
          cases isDone
          exact ⟨isLinks ▸ few, rfl⟩

theorem enumerate_of_length_le_one (few : (linksTo v w).length ≤ 1) : enumerate v w 2 none = .done (linksTo v w) := by
  have noThird : (linksTo v w)[2]? = none := getElem?_eq_none (by omega)
  rw [enumerate, spfGetNextLink_none]
  cases isLinks : linksTo v w with
  | nil => rfl
  | cons first rest =>
    rw [isLinks] at few
    obtain rfl : rest = [] := length_eq_zero_iff.mp (Nat.le_zero.mp (Nat.le_of_succ_le_succ few))
    simp only [enumerate, spfGetNextLink_some, noThird]
    rfl

theorem linksTo_nodup (v : GlobalRoutingLSA) (w : Ipv4Address) : (linksTo v w).Nodup := by
  apply List.Nodup.filter
  apply List.Nodup.of_map Prod.snd
  rw [zipIdx_map_snd]
  exact nodup_range'

theorem enumerates_iff : Enumerates v w ↔ (linksTo v w).length ≤ 1 := by
  constructor
  · rintro ⟨rounds, links, isDone, -, all⟩
    obtain ⟨-, rfl⟩ := enumerate_done isDone
    have nodup := linksTo_nodup v w
    cases isLinks : linksTo v w with
    | nil => exact Nat.zero_le 1
    | cons first rest =>
      cases rest with
      | nil => exact Nat.le_refl 1
      | cons second rest =>
        rw [isLinks] at all nodup
        have isFirst : second = first := by simpa using (all second).mpr (by simp)
        exact absurd (isFirst ▸ mem_cons_self) (nodup_cons.mp nodup).1
  · intro few
    exact ⟨2, linksTo v w, enumerate_of_length_le_one few, linksTo_nodup v w, fun _ => Iff.rfl⟩

/-! ## The next hops of a router on a network -/

variable {network : SPFVertex lsdb} {router : SPFVertex lsdb}

@[simp] theorem setRootExitDirection_getLSA (router : SPFVertex lsdb) (nextHop : Ipv4Address) (id : Int) :
    (router.setRootExitDirection nextHop id).getLSA = router.getLSA := rfl

variable {exit : NodeExit}

theorem nextHopLoop_unfinished {link : GlobalRoutingLinkRecord × Nat}
    (third : (linksTo router.getLSA network.vertexId)[2]? = some link)
    (oneExit : network.getRootExitDirection = some exit)
    (linkRemote : GlobalRoutingLinkRecord × Nat) (rounds : Nat) :
    nextHopLoop network rounds (some linkRemote) router = .unfinished := by
  induction rounds generalizing linkRemote router with
  | zero => rfl
  | succ rounds ih =>
    simp only [nextHopLoop, spfGetNextLink_some, third, oneExit]
    apply ih
    exact third

theorem nextHopLoop_ends (few : (linksTo router.getLSA network.vertexId).length ≤ 2) :
    (nextHopLoop network 2 none router).Ends := by
  have noThird : (linksTo router.getLSA network.vertexId)[2]? = none := getElem?_eq_none few
  rw [nextHopLoop]
  cases spfGetNextLink router.getLSA network.vertexId none with
  | none => exact Outcome.ends_done router
  | some l =>
    cases network.getRootExitDirection with
    | none => exact Outcome.ends_aborted
    | some exit =>
      simp only [nextHopLoop, setRootExitDirection_getLSA, spfGetNextLink_some, noThird]
      exact Outcome.ends_done _

theorem nextHopLoop_unfinished_of_third {link : GlobalRoutingLinkRecord × Nat}
    (third : (linksTo router.getLSA network.vertexId)[2]? = some link)
    (oneExit : network.getRootExitDirection = some exit)
    (rounds : Nat) : nextHopLoop network rounds none router = .unfinished := by
  cases rounds with
  | zero => rfl
  | succ rounds =>
    obtain ⟨isLong, -⟩ := List.getElem?_eq_some_iff.mp third
    have first : spfGetNextLink router.getLSA network.vertexId none =
      some (linksTo router.getLSA network.vertexId)[0] := by
      rw [spfGetNextLink_none]
      exact getElem?_eq_getElem (by omega)
    simp only [nextHopLoop, first, oneExit]
    apply nextHopLoop_unfinished
    · exact third
    · exact oneExit

/-- If the network has one exit, the loop ends exactly if two links at most lead back to the
network. -/
theorem nextHopLoop_ends_iff (oneExit : network.getRootExitDirection = some exit) :
    (∃ rounds, (nextHopLoop network rounds none router).Ends) ↔
      (linksTo router.getLSA network.vertexId).length ≤ 2 := by
  constructor
  · rintro ⟨rounds, ends⟩
    cases third : (linksTo router.getLSA network.vertexId)[2]? with
    | none => exact List.getElem?_eq_none_iff.mp third
    | some link => exact absurd (nextHopLoop_unfinished_of_third third oneExit rounds) ends
  · intro few
    exact ⟨2, nextHopLoop_ends few⟩

/-! ## When `SPFNext` ends -/

/-- How many links each router of the database has to one vertex, at most. -/
def AtMost (bound : Nat) (lsdb : GlobalRouteManagerLSDB) : Prop :=
  ∀ w v : Fin lsdb.length, (linksTo lsdb[w].2 lsdb[v].2.linkStateId).length ≤ bound

variable {findOutgoingInterfaceId : Ipv4Address -> Ipv4Mask -> Int} {spf : SPF lsdb}

open Outcome

theorem exitsThrough_ends (few : AtMost 2 lsdb) (v : Nat) (parent w : SPFVertex lsdb)
    (l : Option GlobalRoutingLinkRecord) :
    (exitsThrough findOutgoingInterfaceId 2 spf v parent w l).Ends := by
  unfold exitsThrough
  split
  · split
    · exact ends_bind (ends_ofOption _) fun _ _ => ends_bind (ends_ofOption _) fun _ _ => ends_pure _
    · exact ends_bind (ends_assert _) fun _ _ => ends_pure _
  · split
    · split
      · exact ends_bind (ends_assert _) fun _ _ => nextHopLoop_ends (few w.lsa parent.lsa)
      · exact ends_pure _
    · exact ends_pure _

theorem spfNexthopCalculation_ends (few : AtMost 2 lsdb) (spf : SPF lsdb) (v w : Nat)
    (l : Option GlobalRoutingLinkRecord)
    (dist : UInt32) : (spfNexthopCalculation findOutgoingInterfaceId 2 spf v w l dist).Ends := by
  refine ends_bind (ends_ofOption _) fun parent _ => ends_bind (ends_ofOption _) fun vertex _ => ?_
  exact ends_bind (exitsThrough_ends few v parent vertex l) fun _ _ => ends_pure _

theorem spfVertexAddParent_ends (spf : SPF lsdb) (v : Nat) : (spf.spfVertexAddParent v).Ends := by
  refine ends_bind (ends_ofOption _) fun vertex _ => ends_foldlM (fun _ _ => ?_) _ _
  exact ends_bind (ends_ofOption _) fun _ _ => ends_pure _

theorem deleteVertex_ends (spf : SPF lsdb) (v : Nat) : (spf.deleteVertex v).Ends := by
  refine ends_bind (ends_ofOption _) fun vertex _ => ends_bind (ends_foldlM (fun _ _ => ?_) _ _) fun _ _ => ends_pure _
  exact ends_bind (ends_ofOption _) fun _ _ => ends_bind (ends_assert _) fun _ _ => ends_pure _

theorem distanceTo_ends (v : SPFVertex lsdb) (neighbour : Neighbour) : (distanceTo v neighbour).Ends := by
  unfold distanceTo
  split
  · exact ends_bind (ends_ofOption _) fun _ _ => ends_pure _
  · exact ends_pure _

theorem lsaOf_ends (neighbour : Neighbour) : (lsaOf lsdb neighbour).Ends := by
  unfold lsaOf
  split
  · split
    · exact ends_done _
    · exact ends_bind (ends_ofOption _) fun _ _ => ends_done _
    · exact ends_bind (ends_ofOption _) fun _ _ => ends_done _
    · exact ends_aborted
  · exact ends_done _

theorem considerCandidate_ends (few : AtMost 2 lsdb) (v : Nat) (wLsa : Fin lsdb.length)
    (l : Option GlobalRoutingLinkRecord)
    (dist : UInt32) : (considerCandidate findOutgoingInterfaceId 2 spf v wLsa l dist).Ends := by
  refine ends_bind (ends_ofOption _) fun cw _ => ends_bind (ends_ofOption _) fun candidate _ => ?_
  split
  · exact ends_pure _
  · split
    · refine ends_bind (spfNexthopCalculation_ends few _ _ _ _ _) fun _ _ => ?_
      refine ends_bind (ends_ofOption _) fun _ _ => ends_bind (ends_ofOption _) fun _ _ => ?_
      exact ends_bind (spfVertexAddParent_ends _ _) fun _ _ => deleteVertex_ends _ _
    · exact ends_bind (spfNexthopCalculation_ends few _ _ _ _ _) fun _ _ => ends_pure _

theorem consider_ends (few : AtMost 2 lsdb) (v : Nat) (spf : SPF lsdb) (neighbour : Neighbour) :
    (consider findOutgoingInterfaceId 2 v spf neighbour).Ends := by
  refine ends_bind (lsaOf_ends neighbour) fun wLsa _ => ?_
  cases wLsa with
  | none => exact ends_pure _
  | some wLsa =>
    cases isStatus : spf.status wLsa with
    | inSpfTree =>
      simp only [isStatus]
      exact ends_pure _
    | notExplored =>
      simp only [isStatus]
      refine ends_bind (ends_ofOption _) fun vertex _ => ends_bind (distanceTo_ends vertex neighbour) fun _ _ => ?_
      exact ends_bind (spfNexthopCalculation_ends few _ _ _ _ _) fun _ _ => ends_pure _
    | candidate =>
      simp only [isStatus]
      refine ends_bind (ends_ofOption _) fun vertex _ => ends_bind (distanceTo_ends vertex neighbour) fun _ _ => ?_
      exact considerCandidate_ends few _ _ _ _

theorem spfNext_ends (few : AtMost 2 lsdb) (spf : SPF lsdb) (v : Nat) :
    (spfNext findOutgoingInterfaceId 2 spf v).Ends :=
  ends_bind (ends_ofOption _) fun _ _ => ends_foldlM (consider_ends few v) _ _

/-- A router with a third link to a network next to the root is not explored yet, and the routers
before it are not looked at. -/
structure ThirdLink (spf : SPF lsdb) (v : Nat) (network : SPFVertex lsdb)
    (before : List Ipv4Address) (wLsa : Fin lsdb.length) : Prop where
  isVertex : spf.vertices v = some network
  isNetwork : network.getLSA.lsType = .networkLSA
  notRoot : v ≠ spf.spfroot
  ofRoot : network.parents.head? = some spf.spfroot
  oneExit : ∃ exit, network.getRootExitDirection = some exit
  notNext : v ≠ spf.nextVertex
  skipped : ∀ router ∈ before, ∀ lsa, lsdb.getLSAByLinkData router = some lsa -> spf.status lsa = .inSpfTree
  isNew : spf.status wLsa = .notExplored
  isRouter : lsdb[wLsa].2.lsType = .routerLSA
  third : ∃ link, (linksTo lsdb[wLsa].2 network.vertexId)[2]? = some link

theorem consider_skipped {router : Ipv4Address} (v : Nat) (rounds : Nat)
    (skipped : ∀ lsa, lsdb.getLSAByLinkData router = some lsa -> spf.status lsa = .inSpfTree) :
    consider findOutgoingInterfaceId rounds v spf (.attached router) = .done spf := by
  cases isLsa : lsdb.getLSAByLinkData router with
  | none =>
    simp only [consider, lsaOf, isLsa]
    rfl
  | some lsa =>
    simp only [consider, lsaOf, isLsa, done_bind, skipped lsa isLsa]
    rfl

@[simp] theorem newVertex_spfroot (spf : SPF lsdb) (lsa : Fin lsdb.length) :
    (spf.newVertex lsa).spfroot = spf.spfroot := rfl

theorem newVertex_vertices (spf : SPF lsdb) (lsa : Fin lsdb.length) :
    (spf.newVertex lsa).vertices = Function.update spf.vertices spf.nextVertex (some { lsa := lsa }) := rfl

theorem consider_passed {before : List Ipv4Address} (v : Nat) (rounds : Nat)
    (skipped : ∀ router ∈ before, ∀ lsa, lsdb.getLSAByLinkData router = some lsa -> spf.status lsa = .inSpfTree) :
    (before.map Neighbour.attached).foldlM (consider findOutgoingInterfaceId rounds v) spf = .done spf := by
  induction before with
  | nil => rfl
  | cons first before ih =>
    rw [map_cons, foldlM_cons, consider_skipped v rounds (skipped first mem_cons_self)]
    exact ih fun router mem => skipped router (mem_cons_of_mem _ mem)

theorem consider_unfinished {v : Nat} {before : List Ipv4Address} {router : Ipv4Address}
    {wLsa : Fin lsdb.length} (isLsa : lsdb.getLSAByLinkData router = some wLsa)
    (thirdLink : ThirdLink spf v network before wLsa) (rounds : Nat) :
    consider findOutgoingInterfaceId rounds v spf (.attached router) = .unfinished := by
  obtain ⟨exit, oneExit⟩ := thirdLink.oneExit
  obtain ⟨link, third⟩ := thirdLink.third
  have isVertex : spf.vertex v = .done network := by
    rw [SPF.vertex, thirdLink.isVertex]
    rfl
  have stillVertex : (spf.newVertex wLsa).vertex v = .done network := by
    rw [SPF.vertex, newVertex_vertices, Function.update_of_ne thirdLink.notNext, thirdLink.isVertex]
    rfl
  have madeVertex : (spf.newVertex wLsa).vertex spf.nextVertex = .done { lsa := wLsa } := by
    rw [SPF.vertex, newVertex_vertices, Function.update_self]
    rfl
  have isType : network.vertexType = .network := by
    rw [SPFVertex.vertexType, thirdLink.isNetwork]
  have routerType : SPFVertex.vertexType { lsa := wLsa } = .router := by
    rw [SPFVertex.vertexType, SPFVertex.getLSA, thirdLink.isRouter]
  have noExits : exitsThrough findOutgoingInterfaceId rounds (spf.newVertex wLsa) v network { lsa := wLsa } none =
      .unfinished := by
    rw [exitsThrough, newVertex_spfroot, if_neg thirdLink.notRoot, if_pos isType, if_pos thirdLink.ofRoot, assert,
      if_pos routerType]
    apply nextHopLoop_unfinished_of_third
    · exact third
    · exact oneExit
  have noLink : distanceTo network (.attached router) = .done network.distanceFromRoot := by
    rw [distanceTo, if_neg (by simp [thirdLink.isNetwork])]
    rfl
  simp only [consider, lsaOf, isLsa, done_bind, thirdLink.isNew, isVertex, noLink,
    spfNexthopCalculation, Neighbour.link?,
    stillVertex, madeVertex, noExits, unfinished_bind]

/-- `SPFNext` does not end for a network that such a router is attached to. -/
theorem spfNext_unfinished {v : Nat} {network : SPFVertex lsdb} {before after : List Ipv4Address} {router : Ipv4Address}
    {wLsa : Fin lsdb.length} (attached : network.getLSA.attachedRouters = before ++ router :: after)
    (isLsa : lsdb.getLSAByLinkData router = some wLsa)
    (thirdLink : ThirdLink spf v network before wLsa) (rounds : Nat) :
    spfNext findOutgoingInterfaceId rounds spf v = .unfinished := by
  have isType : network.vertexType = .network := by
    rw [SPFVertex.vertexType, thirdLink.isNetwork]
  have isVertex : spf.vertex v = .done network := by
    rw [SPF.vertex, thirdLink.isVertex]
    rfl
  rw [spfNext, isVertex, done_bind, neighbours, isType]
  rw [attached, map_append, map_cons, foldlM_append, consider_passed v rounds thirdLink.skipped, done_bind,
    foldlM_cons, consider_unfinished isLsa thirdLink, unfinished_bind]

/-- What is asked of the calculation for a database: repeated calls return every link, and the loops
end, whatever vertices and candidates there are. -/
structure Terminates (lsdb : GlobalRouteManagerLSDB) : Prop where
  enumerates : ∀ w v : Fin lsdb.length, Enumerates lsdb[w].2 lsdb[v].2.linkStateId
  nextHops : ∀ network router : SPFVertex lsdb, ∃ rounds, (nextHopLoop network rounds none router).Ends
  spfNext : ∀ findOutgoingInterfaceId (spf : SPF lsdb) v, ∃ rounds, (spfNext findOutgoingInterfaceId rounds spf v).Ends

/-- It is so exactly if no vertex has two links to another one. The loop over next hops only fails
to end with three of them. -/
theorem terminates_iff (lsdb : GlobalRouteManagerLSDB) : (Terminates lsdb ↔ AtMost 1 lsdb) ∧
    ∀ (network router : SPFVertex lsdb) (exit : NodeExit), network.getRootExitDirection = some exit ->
      ((∃ rounds, (nextHopLoop network rounds none router).Ends) ↔
        (linksTo router.getLSA network.vertexId).length ≤ 2) := by
  refine ⟨⟨?_, ?_⟩, fun network router exit oneExit => nextHopLoop_ends_iff oneExit⟩
  · intro terminates w v
    exact enumerates_iff.mp (terminates.enumerates w v)
  · intro one
    have few : AtMost 2 lsdb := fun w v => Nat.le_succ_of_le (one w v)
    constructor
    · exact fun w v => enumerates_iff.mpr (one w v)
    · exact fun network router => ⟨2, nextHopLoop_ends (few router.lsa network.lsa)⟩
    · exact fun findOutgoingInterfaceId spf v => ⟨2, spfNext_ends few spf v⟩

/-! ## Three interfaces on one network -/

/-- The router `0.0.0.1` is on a network on which `0.0.0.2` has three interfaces, and has a link to
`0.0.0.3`. -/
def threeInterfaces : GlobalRouteManagerLSDB :=
  [(⟨1⟩, ⟨.routerLSA, ⟨1⟩,
      [⟨.transitNetwork, ⟨0x0a010101⟩, ⟨0x0a010101⟩, 1⟩, ⟨.pointToPoint, ⟨3⟩, ⟨0x0a010201⟩, 1⟩], ⟨0⟩, []⟩),
    (⟨2⟩, ⟨.routerLSA, ⟨2⟩,
      [⟨.transitNetwork, ⟨0x0a010101⟩, ⟨0x0a010102⟩, 1⟩, ⟨.transitNetwork, ⟨0x0a010101⟩, ⟨0x0a010103⟩, 1⟩,
        ⟨.transitNetwork, ⟨0x0a010101⟩, ⟨0x0a010104⟩, 1⟩], ⟨0⟩, []⟩),
    (⟨3⟩, ⟨.routerLSA, ⟨3⟩, [⟨.pointToPoint, ⟨1⟩, ⟨0x0a010202⟩, 1⟩], ⟨0⟩, []⟩),
    (⟨0x0a010101⟩, ⟨.networkLSA, ⟨0x0a010101⟩, [], ⟨0xffffff00⟩,
      [⟨0x0a010101⟩, ⟨0x0a010102⟩, ⟨0x0a010103⟩, ⟨0x0a010104⟩]⟩)]

/-- The network has been taken from the candidates of the first router. -/
def atNetwork : SPF threeInterfaces where
  spfroot := 0
  vertices v :=
    match v with
    | 0 => some { lsa := ⟨0, by decide⟩, distanceFromRoot := 0, children := [1] }
    | 1 => some { lsa := ⟨3, by decide⟩, distanceFromRoot := 1, ecmpRootExits := [(⟨0⟩, 1)], parents := [0] }
    | 2 => some { lsa := ⟨2, by decide⟩, distanceFromRoot := 1, ecmpRootExits := [(⟨0x0a010202⟩, 1)], parents := [0] }
    | _ => none
  nextVertex := 3
  status lsa := [.inSpfTree, .notExplored, .candidate, .inSpfTree].getD lsa .notExplored
  candidate := [2]

/-- The network as it is then, with an exit of the root. -/
def networkVertex : SPFVertex threeInterfaces where
  lsa := ⟨3, by decide⟩
  distanceFromRoot := 1
  ecmpRootExits := [(⟨0⟩, 1)]
  parents := [0]

theorem terminates_iff_networkVertex : networkVertex.getRootExitDirection = some (⟨0⟩, 1) ∧
    (∃ rounds, (nextHopLoop networkVertex rounds none { lsa := ⟨0, by decide⟩ }).Ends) ∧
      ¬∃ rounds, (nextHopLoop networkVertex rounds none { lsa := ⟨1, by decide⟩ }).Ends := by
  obtain ⟨-, loop⟩ := terminates_iff threeInterfaces
  exact ⟨rfl, (loop networkVertex _ (⟨0⟩, 1) rfl).mpr (by decide),
    mt (loop networkVertex _ (⟨0⟩, 1) rfl).mp (by decide)⟩

theorem threeInterfaces_not_terminates :
    (∀ rounds, spfNext (fun _ _ => 1) rounds atNetwork 1 = .unfinished) ∧ ¬Terminates threeInterfaces := by
  have unfinished : ∀ rounds, spfNext (fun _ _ => 1) rounds atNetwork 1 = .unfinished := by
    intro rounds
    apply @spfNext_unfinished _ _ atNetwork 1
      { lsa := ⟨3, by decide⟩, distanceFromRoot := 1, ecmpRootExits := [(⟨0⟩, 1)], parents := [0] }
      [⟨0x0a010101⟩] [⟨0x0a010103⟩, ⟨0x0a010104⟩] ⟨0x0a010102⟩ ⟨1, by decide⟩
    · decide
    · decide +kernel
    · constructor
      · rfl
      · rfl
      · decide
      · rfl
      · exact ⟨_, rfl⟩
      · decide
      · decide +kernel
      · rfl
      · rfl
      · exact ⟨_, rfl⟩
  refine ⟨unfinished, fun terminates => ?_⟩
  obtain ⟨rounds, ends⟩ := terminates.spfNext (fun _ _ => 1) atNetwork 1
  exact ends (unfinished rounds)

end GlobalRouteManagerImpl

end Ns3.Internet
