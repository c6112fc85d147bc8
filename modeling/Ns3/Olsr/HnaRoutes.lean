import Ns3.Olsr.RoutingTable

/-!
# Routes to associated networks

The loop that clears the routes leaves half of them. One that is left stays unless a nearer gateway
of its network replaces it.
-/

namespace Ns3.Olsr

open Network List

namespace OlsrState

variable {state : OlsrState} {table : RoutingTable} {routes : List HnaRoute} {route : HnaRoute} {network : Association}
  {entry : RoutingTableEntry} {tuple : AssociationTuple}

theorem clearRoutes_eq_drop (index : Nat) (routes : List HnaRoute) :
    clearRoutes index routes = routes.drop ((routes.length + 1 - index) / 2) := by
  induction routes generalizing index with
  | nil => rw [drop_nil, clearRoutes]
  | cons route routes ih =>
    rw [clearRoutes, length_cons]
    split
    · rw [ih, show (routes.length + 1 + 1 - index) / 2 = (routes.length + 1 - (index + 1)) / 2 + 1 by omega,
        drop_succ_cons]
    · rw [show (routes.length + 1 + 1 - index) / 2 = 0 by omega, drop_zero]

def routeTo (routes : List HnaRoute) (network : Association) : Option HnaRoute :=
  routes.find? fun route => route.network = network

theorem routeTo_mem (found : routeTo routes network = some route) : route ∈ routes ∧ route.network = network :=
  ⟨mem_of_find?_eq_some found, by simpa using find?_some found⟩

section

variable (nodup : (routes.map HnaRoute.network).Nodup)
include nodup

theorem split_of_mem (mem : route ∈ routes) :
    ∃ before after, routes = before ++ route :: after ∧ (∀ other ∈ before, other.network ≠ route.network) ∧
      ∀ other ∈ after, other.network ≠ route.network := by
  obtain ⟨before, after, rfl⟩ := append_of_mem mem
  rw [map_append, map_cons, nodup_middle, nodup_cons, mem_append, not_or] at nodup
  refine ⟨before, after, rfl, fun other isBefore same => nodup.1.1 ?_, fun other isAfter same => nodup.1.2 ?_⟩
  · rw [← same]
    exact mem_map_of_mem isBefore
  · rw [← same]
    exact mem_map_of_mem isAfter

theorem routeTo_of_mem (mem : route ∈ routes) : routeTo routes route.network = some route := by
  obtain ⟨before, after, rfl, early, -⟩ := split_of_mem nodup mem
  unfold routeTo
  rw [find?_append, find?_eq_none.mpr (by simpa using early), Option.none_or, find?_cons_of_pos (by simp)]

theorem filter_eq_singleton (mem : route ∈ routes) :
    routes.filter (fun other => other.network = route.network) = [route] := by
  obtain ⟨before, after, rfl, early, late⟩ := split_of_mem nodup mem
  rw [filter_append, filter_cons_of_pos (by simp), filter_eq_nil_iff.mpr (by simpa using early),
    filter_eq_nil_iff.mpr (by simpa using late), nil_append]

end

/-- A new route of the computation. -/
def newRoute (network : Association) (entry : RoutingTableEntry) : HnaRoute :=
  ⟨network, entry.nextAddr, entry.interface, entry.distance, true⟩

theorem addNetworkRouteTo_eq (without : ∀ other ∈ routes, other.network ≠ network) :
    addNetworkRouteTo routes network entry = routes ++ [newRoute network entry] := by
  have notFound : lookupRoute routes (newRoute network entry) = false := by
    apply any_eq_false.mpr
    intro other mem found
    exact without other mem (of_decide_eq_true found).1
  unfold addNetworkRouteTo
  dsimp only
  rw [← newRoute, notFound]
  rfl

/-- The better of a route and one by a gateway. -/
def better (network : Association) : Option HnaRoute -> Option RoutingTableEntry -> Option HnaRoute
  | route, none => route
  | none, some entry => some (newRoute network entry)
  | some route, some entry => if route.metric > entry.distance then some (newRoute network entry) else some route

theorem better_some : better network (some route) (some entry) =
    if route.metric > entry.distance then some (newRoute network entry) else some route :=
  rfl

/-- Step 5 changes the route of one network, to the better one. -/
theorem addAssociation_spec (nodup : (routes.map HnaRoute.network).Nodup) (tuple : AssociationTuple) :
    ((state.addAssociation table routes tuple).map HnaRoute.network).Nodup ∧
      ∀ network, routeTo (state.addAssociation table routes tuple) network =
        if network = tuple.network ∧ network ∉ state.associations then
          better network (routeTo routes network) (table tuple.gatewayAddr)
        else routeTo routes network := by
  unfold addAssociation
  by_cases isLocal : tuple.network ∈ state.associations
  · rw [if_pos isLocal]
    refine ⟨nodup, fun network => (if_neg ?_).symm⟩
    rintro ⟨rfl, foreign⟩
    exact foreign isLocal
  · rw [if_neg isLocal]
    dsimp only
    rw [← find?_eq_getElem?_findIdx]
    cases isGateway : table tuple.gatewayAddr with
    | none =>
      refine ⟨nodup, fun network => ?_⟩
      dsimp only
      split
      · rfl
      · rfl
    | some entry =>
      cases found : routes.find? fun route => route.network = tuple.network with
      | none =>
        have without : ∀ other ∈ routes, other.network ≠ tuple.network := by simpa using found
        dsimp only
        rw [addNetworkRouteTo_eq without]
        refine ⟨?_, fun network => ?_⟩
        · rw [map_append, map_singleton, ← concat_eq_append, nodup_concat]
          refine ⟨fun mem => ?_, nodup⟩
          obtain ⟨other, isOther, same⟩ := mem_map.mp mem
          exact without other isOther same
        · unfold routeTo
          rw [find?_append]
          by_cases same : network = tuple.network
          · subst same
            rw [found, if_pos ⟨rfl, isLocal⟩]
            simp [better, newRoute]
          · rw [if_neg fun both => same both.1,
              find?_cons_of_neg fun isNew => same (of_decide_eq_true isNew).symm]
            simp
      | some route =>
        dsimp only
        by_cases nearer : route.metric > entry.distance
        · rw [if_pos nearer]
          obtain ⟨mem, isNetwork⟩ := routeTo_mem found
          rw [← isNetwork] at found ⊢
          obtain ⟨before, after, rfl, early, late⟩ := split_of_mem nodup mem
          have without : ∀ other ∈ before ++ after, other.network ≠ route.network :=
            forall_mem_append.mpr ⟨early, late⟩
          have noEarly : before.findIdx (fun other => other.network = route.network) = before.length :=
            findIdx_eq_length_of_false fun other isBefore => decide_eq_false (early other isBefore)
          rw [findIdx_append, noEarly, if_neg (Nat.lt_irrefl _), findIdx_cons,
            decide_eq_true (rfl : route.network = route.network), cond_true,
            Nat.zero_add, eraseIdx_append_of_length_le (Nat.le_refl _), Nat.sub_self, eraseIdx_cons_zero,
            addNetworkRouteTo_eq without]
          rw [map_append, map_cons, nodup_middle, nodup_cons, ← map_append] at nodup
          refine ⟨?_, fun network => ?_⟩
          · rw [map_append, map_singleton, ← concat_eq_append, nodup_concat]
            exact nodup
          · unfold routeTo
            by_cases same : network = route.network
            · subst same
              rw [found, if_pos ⟨rfl, by rwa [isNetwork]⟩, better, if_pos nearer, find?_append,
                find?_eq_none.mpr (by simpa using without), Option.none_or, find?_cons_of_pos (by simp [newRoute])]
            · rw [if_neg fun both => same both.1, find?_append, find?_append, find?_append,
                find?_cons_of_neg fun isNew => same (of_decide_eq_true isNew).symm,
                find?_cons_of_neg fun isOld => same (of_decide_eq_true isOld).symm, find?_nil, Option.or_none]
        · rw [if_neg nearer]
          refine ⟨nodup, fun network => ?_⟩
          by_cases same : network = tuple.network
          · subst same
            rw [if_pos ⟨rfl, isLocal⟩, routeTo, found, better, if_neg nearer]
          · rw [if_neg fun both => same both.1]

/-- The entries of the gateways of a network that can be reached. -/
def gatewayEntries (tuples : List AssociationTuple) (table : RoutingTable) (network : Association) :
    List RoutingTableEntry :=
  (tuples.filter fun tuple => tuple.network = network).filterMap fun tuple => table tuple.gatewayAddr

theorem mem_gatewayEntries {tuples : List AssociationTuple} : entry ∈ gatewayEntries tuples table network ↔
    ∃ tuple ∈ tuples, tuple.network = network ∧ table tuple.gatewayAddr = some entry := by
  simp [gatewayEntries, and_assoc]

/-- The route of a network after the loop: the one before it, unless a gateway is nearer than that,
and none is nearer than this one. -/
def IsBest (entries : List RoutingTableEntry) (network : Association) (old new : Option HnaRoute) : Prop :=
  (new = old ∧ ∀ entry ∈ entries, ∃ route, old = some route ∧ route.metric ≤ entry.distance) ∨
    ∃ entry ∈ entries, new = some (newRoute network entry) ∧ (∀ other ∈ entries, entry.distance ≤ other.distance) ∧
      ∀ route, old = some route -> entry.distance < route.metric

theorem IsBest.better {entries : List RoutingTableEntry} {old new : Option HnaRoute}
    (best : IsBest entries network old new) (entry : RoutingTableEntry) :
    IsBest (entries ++ [entry]) network old (better network new (some entry)) := by
  rcases best with ⟨rfl, bound⟩ | ⟨nearest, isEntry, rfl, least, less⟩
  · cases new with
    | none =>
      have empty : entries = [] := by
        apply eq_nil_iff_forall_not_mem.mpr
        intro other mem
        obtain ⟨route, impossible, -⟩ := bound other mem
        cases impossible
      subst empty
      exact .inr ⟨entry, by simp, rfl, by simp, by simp⟩
    | some route =>
      rw [better_some]
      split
      · rename_i nearer
        refine .inr ⟨entry, by simp, rfl, fun other mem => ?_, fun old isOld => ?_⟩
        · rcases mem_append.mp mem with early | last
          · obtain ⟨same, isSame, le⟩ := bound other early
            cases isSame
            omega
          · rw [mem_singleton.mp last]
        · cases isOld
          exact nearer
      · rename_i further
        refine .inl ⟨rfl, forall_mem_append.mpr ⟨bound, forall_mem_singleton.mpr ⟨route, rfl, ?_⟩⟩⟩
        exact Nat.not_lt.mp further
  · right
    rw [better_some]
    split
    · rename_i nearer
      refine ⟨entry, by simp, rfl, fun other mem => ?_, fun route isOld => ?_⟩
      · rcases mem_append.mp mem with early | last
        · have le := least other early
          dsimp only [newRoute] at nearer
          omega
        · rw [mem_singleton.mp last]
      · have old := less route isOld
        dsimp only [newRoute] at nearer
        omega
    · rename_i further
      refine ⟨nearest, by simp [isEntry], rfl, forall_mem_append.mpr ⟨least, ?_⟩, less⟩
      exact forall_mem_singleton.mpr (Nat.not_lt.mp further)

theorem foldl_addAssociation (nodup : (routes.map HnaRoute.network).Nodup) (tuples : List AssociationTuple) :
    ((tuples.foldl (state.addAssociation table) routes).map HnaRoute.network).Nodup ∧
      ∀ network, (network ∈ state.associations ->
          routeTo (tuples.foldl (state.addAssociation table) routes) network = routeTo routes network) ∧
        (network ∉ state.associations -> IsBest (gatewayEntries tuples table network) network (routeTo routes network)
          (routeTo (tuples.foldl (state.addAssociation table) routes) network)) := by
  induction tuples using reverseRecOn with
  | nil => exact ⟨nodup, fun network => ⟨fun _ => rfl, fun _ => .inl ⟨rfl, by simp [gatewayEntries]⟩⟩⟩
  | append_singleton tuples last ih =>
    obtain ⟨nodupBefore, before⟩ := ih
    rw [foldl_append, foldl_cons, foldl_nil]
    obtain ⟨nodupAfter, after⟩ := @addAssociation_spec state table _ nodupBefore last
    refine ⟨nodupAfter, fun network => ⟨fun isLocal => ?_, fun foreign => ?_⟩⟩
    · rw [after, if_neg fun both => both.2 isLocal]
      exact (before network).1 isLocal
    · have best := (before network).2 foreign
      rw [after]
      unfold gatewayEntries at best ⊢
      rw [filter_append, filterMap_append]
      by_cases same : network = last.network
      · rw [if_pos ⟨same, foreign⟩, filter_cons_of_pos (by simpa using same.symm), filter_nil]
        cases isGateway : table last.gatewayAddr with
        | none =>
          simp only [filterMap_cons, isGateway, filterMap_nil, append_nil]
          have unchanged : better network (routeTo (tuples.foldl (state.addAssociation table) routes) network) none =
              routeTo (tuples.foldl (state.addAssociation table) routes) network := by
            cases routeTo (tuples.foldl (state.addAssociation table) routes) network with
            | none => rfl
            | some route => rfl
          rwa [unchanged]
        | some entry =>
          simp only [filterMap_cons, isGateway, filterMap_nil]
          exact best.better entry
      · rw [if_neg fun both => same both.1, filter_cons_of_neg fun isLast => same (of_decide_eq_true isLast).symm,
          filter_nil, filterMap_nil, append_nil]
        exact best

/-- Each network that another node announces and whose gateway is in the table has one route, by a
nearest gateway, and no other network has one. No route is of an earlier computation. -/
structure RoutesExact (state : OlsrState) (table : RoutingTable) (routes : List HnaRoute) : Prop where
  fresh : ∀ route ∈ routes, route.fresh = true
  nearest : ∀ route ∈ routes, route.network ∉ state.associations ∧
    ∃ entry ∈ gatewayEntries state.associationSet table route.network, route = newRoute route.network entry ∧
      ∀ other ∈ gatewayEntries state.associationSet table route.network, entry.distance ≤ other.distance
  one : ∀ network, network ∉ state.associations -> gatewayEntries state.associationSet table network ≠ [] ->
    ∃ route, routes.filter (fun route => route.network = network) = [route]

/-- The routes that the clearing loop leaves: all but the first half, rounded up. -/
def leftRoutes (state : OlsrState) : List HnaRoute :=
  state.hnaRoutes.drop ((state.hnaRoutes.length + 1) / 2)

theorem clearRoutes_oldRoutes :
    clearRoutes 0 state.oldRoutes = state.leftRoutes.map fun route => { route with fresh := false } := by
  rw [clearRoutes_eq_drop, oldRoutes, length_map, leftRoutes, map_drop, Nat.sub_zero]

theorem clearRoutes_nodup : ((clearRoutes 0 state.oldRoutes).map HnaRoute.network).Nodup := by
  rw [clearRoutes_oldRoutes, map_map]
  exact state.hnaNodup.sublist ((drop_sublist _ _).map _)

/-- A gateway of the network of a route is nearer than the route. -/
def Replaceable (state : OlsrState) (table : RoutingTable) (route : HnaRoute) : Prop :=
  route.network ∉ state.associations ∧
    ∃ entry ∈ gatewayEntries state.associationSet table route.network, entry.distance < route.metric

theorem routesExact_iff (state : OlsrState) (table : RoutingTable) : state.RoutesExact table
      (state.associationSet.foldl (state.addAssociation table) (clearRoutes 0 state.oldRoutes)) ↔
    ∀ route ∈ state.leftRoutes, state.Replaceable table route := by
  obtain ⟨nodup, routes⟩ := @foldl_addAssociation state table _ clearRoutes_nodup state.associationSet
  generalize state.associationSet.foldl (state.addAssociation table) (clearRoutes 0 state.oldRoutes) = final
    at nodup routes ⊢
  constructor
  · intro exact route isLeft
    have mem : { route with fresh := false } ∈ clearRoutes 0 state.oldRoutes := by
      rw [clearRoutes_oldRoutes]
      exact mem_map_of_mem isLeft
    have old : routeTo (clearRoutes 0 state.oldRoutes) route.network = some { route with fresh := false } :=
      routeTo_of_mem clearRoutes_nodup mem
    obtain ⟨locally, best⟩ := routes route.network
    have notOld : routeTo final route.network ≠ some { route with fresh := false } := by
      intro same
      exact Bool.false_ne_true (exact.fresh _ (routeTo_mem same).1)
    by_cases isLocal : route.network ∈ state.associations
    · exact absurd ((locally isLocal).trans old) notOld
    · rcases best isLocal with ⟨same, -⟩ | ⟨entry, isEntry, -, -, less⟩
      · exact absurd (same.trans old) notOld
      · have nearer := less _ old
        exact ⟨isLocal, entry, isEntry, nearer⟩
  · intro replaceable
    have replaced : ∀ route, routeTo (clearRoutes 0 state.oldRoutes) route.network = some route ->
        state.Replaceable table route := by
      intro route isOld
      obtain ⟨mem, -⟩ := routeTo_mem isOld
      rw [clearRoutes_oldRoutes] at mem
      obtain ⟨left, isLeft, rfl⟩ := mem_map.mp mem
      exact replaceable left isLeft
    have isNew : ∀ route ∈ final, route.network ∉ state.associations ∧
        ∃ entry ∈ gatewayEntries state.associationSet table route.network, route = newRoute route.network entry ∧
          ∀ other ∈ gatewayEntries state.associationSet table route.network, entry.distance ≤ other.distance := by
      intro route mem
      have found := routeTo_of_mem nodup mem
      obtain ⟨locally, best⟩ := routes route.network
      by_cases isLocal : route.network ∈ state.associations
      · rw [locally isLocal] at found
        exact absurd isLocal (replaced route found).1
      · rcases best isLocal with ⟨same, bound⟩ | ⟨entry, isEntry, isRoute, least, -⟩
        · rw [same] at found
          obtain ⟨-, entry, isEntry, less⟩ := replaced route found
          obtain ⟨other, isOther, le⟩ := bound entry isEntry
          cases found.symm.trans isOther
          omega
        · exact ⟨isLocal, entry, isEntry, Option.some.inj (found.symm.trans isRoute), least⟩
    refine ⟨fun route mem => ?_, isNew, fun network foreign some => ?_⟩
    · obtain ⟨-, entry, -, isRoute, -⟩ := isNew route mem
      rw [isRoute]
      rfl
    · obtain ⟨entry, isEntry⟩ := exists_mem_of_ne_nil _ some
      have found : ∃ route, routeTo final network = Option.some route := by
        rcases (routes network).2 foreign with ⟨same, bound⟩ | ⟨nearest, -, isRoute, -⟩
        · obtain ⟨route, isRoute, -⟩ := bound entry isEntry
          exact ⟨route, same.trans isRoute⟩
        · exact ⟨_, isRoute⟩
      obtain ⟨route, isRoute⟩ := found
      obtain ⟨mem, rfl⟩ := routeTo_mem isRoute
      exact ⟨route, filter_eq_singleton nodup mem⟩

end OlsrState
end Ns3.Olsr
