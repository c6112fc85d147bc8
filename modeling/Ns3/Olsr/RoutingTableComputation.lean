import Ns3.Olsr.ShortestPaths
import Ns3.Olsr.HnaRoutes

/-!
# What a computation makes

The tables are those of the shortest paths exactly if the information does not contradict itself in
the ways named here, and no route of an earlier computation stays.
-/

namespace Ns3.Olsr

open Network Semantics

namespace OlsrState

variable {state : OlsrState} {result : Computed} {address : Ipv4Address} {entry : RoutingTableEntry}

/-- The number of hops to an address, aliases included. -/
def Distance (state : OlsrState) : Ipv4Address -> Nat -> Prop :=
  aliased state.PathLength state.ifaceAssocSet

/-- The tables are those of the shortest paths. -/
structure ShortestPathTables (state : OlsrState) (result : Computed) : Prop where
  /-- Before the aliases, the destinations are those of paths, at their least lengths. -/
  paths : ∀ address distance, (∃ entry, result.reached address = some entry ∧ entry.distance = distance) ↔
    state.PathLength address distance
  /-- The aliases are added to them. -/
  keeps : ∀ {address entry}, result.reached address = some entry -> result.table address = some entry
  aliases : ∀ address distance, (∃ entry, result.table address = some entry ∧ entry.distance = distance) ↔
    state.Distance address distance
  ofMain : ∀ {address entry}, result.reached address = none -> result.table address = some entry ->
    ∃ tuple ∈ state.ifaceAssocSet, tuple.ifaceAddr = address ∧
      ∃ main, result.table tuple.mainAddr = some main ∧ entry = { main with destAddr := address }
  destination : ∀ {address entry}, result.table address = some entry -> entry.destAddr = address
  direct : state.Direct result.table
  /-- The later entries are one hop beyond that of the other end of a topology tuple. -/
  later : ∀ {address entry}, result.reached address = some entry -> 2 < entry.distance ->
    ∃ tuple ∈ state.topologySet, tuple.destAddr = address ∧
      ∃ last, result.reached tuple.lastAddr = some last ∧ entry = beyond address last
  notOwn : result.table state.mainAddress = none
  hop : ∀ {address entry}, result.table address = some entry -> HopIn result.table entry
  /-- A packet is sent by the entry of the next hop. -/
  send : ∀ {address entry}, result.table address = some entry -> ∀ fuel, 2 ≤ fuel ->
    ∃ sent, result.table.findSendEntry fuel entry = some (some sent) ∧ sent.destAddr = entry.nextAddr ∧
      sent.nextAddr = entry.nextAddr ∧ sent.interface = entry.interface
  routes : state.RoutesExact result.table result.hnaRoutes

/-- When the information of a node has a table of shortest paths, and the old routes make way. -/
structure Consistent (state : OlsrState) : Prop where
  interfacesLast : state.InterfacesLast
  twoHopsStrict : state.TwoHopsStrict
  notOwn : ∀ distance, ¬state.Distance state.mainAddress distance
  replaced : ∀ route ∈ state.leftRoutes, route.network ∉ state.associations ∧
    ∃ tuple ∈ state.associationSet, tuple.network = route.network ∧
      ∃ distance, state.Distance tuple.gatewayAddr distance ∧ distance < route.metric

theorem replaceable_iff (aliases : ∀ address dist,
      (∃ entry, result.table address = some entry ∧ entry.distance = dist) ↔ state.Distance address dist)
    (route : HnaRoute) : state.Replaceable result.table route ↔ route.network ∉ state.associations ∧
      ∃ tuple ∈ state.associationSet, tuple.network = route.network ∧
        ∃ dist, state.Distance tuple.gatewayAddr dist ∧ dist < route.metric := by
  unfold Replaceable
  refine and_congr_right fun _ => ?_
  simp only [mem_gatewayEntries, ← aliases]
  constructor
  · rintro ⟨entry, ⟨tuple, mem, same, isEntry⟩, less⟩
    exact ⟨tuple, mem, same, entry.distance, ⟨entry, isEntry, rfl⟩, less⟩
  · rintro ⟨tuple, mem, same, _, ⟨entry, isEntry, rfl⟩, less⟩
    exact ⟨entry, ⟨tuple, mem, same, isEntry⟩, less⟩

theorem HopIn.send {table : RoutingTable} (hop : HopIn table entry) {fuel : Nat} (enough : 2 ≤ fuel) :
    ∃ sent, table.findSendEntry fuel entry = some (some sent) ∧ sent.destAddr = entry.nextAddr ∧
      sent.nextAddr = entry.nextAddr ∧ sent.interface = entry.interface := by
  obtain ⟨fuel, rfl⟩ := Nat.exists_eq_add_of_le' enough
  unfold RoutingTable.findSendEntry
  split
  · rename_i isDirect
    exact ⟨entry, rfl, isDirect, rfl, rfl⟩
  · refine ⟨⟨entry.nextAddr, entry.nextAddr, entry.interface, 1⟩, ?_, rfl, rfl, rfl⟩
    rw [hop]
    dsimp only
    unfold RoutingTable.findSendEntry
    exact if_pos rfl

theorem distance_beyond (address : Ipv4Address) (entry : RoutingTableEntry) :
    (beyond address entry).distance = entry.distance + 1 :=
  rfl

theorem pathLength_two : state.PathLength address 2 ↔ state.StrictTwoHop address := by
  unfold PathLength
  constructor
  · rintro (⟨-, impossible⟩ | ⟨-, isLeast⟩)
    · cases impossible
    · exact Layers.reaches_start.mp isLeast.1
  · intro strict
    exact .inr ⟨strict.1, .seed strict, fun other reaches => reaches.start_le⟩

theorem twoHopTable_entry (isEntry : state.twoHopTable address = some entry) :
    entry.destAddr = address ∧ entry.distance ≤ 2 := by
  by_cases leads : state.LeadsTo state.twoHopNeighborSet address
  · obtain ⟨written, isWritten, isDest, isTwo⟩ := twoHopTable_of_leadsTo leads
    cases isEntry.symm.trans isWritten
    exact ⟨isDest, Nat.le_of_eq isTwo⟩
  · rw [twoHopTable_of_not_leadsTo leads] at isEntry
    obtain ⟨isDest, isOne⟩ := oneHopTable_entry isEntry
    exact ⟨isDest, by omega⟩

variable {reached : RoutingTable}

/-- The table at the end has what the table of the neighbours has, where no two-hop tuple leads
there. -/
theorem table_of_oneHop (grown : Layers.Grown state.edges beyond state.twoHopTable reached)
    (tuples : List IfaceAssocTuple) (not : ¬state.LeadsTo state.twoHopNeighborSet address)
    (isEntry : state.oneHopTable address = some entry) : tuples.foldl addAlias reached address = some entry := by
  apply (foldl_addAlias tuples reached).1
  apply grown.keeps
  rwa [twoHopTable_of_not_leadsTo not]

theorem ShortestPathTables.consistent {routes : List HnaRoute}
    (grown : Layers.Grown state.edges beyond state.twoHopTable reached)
    (isRoutes : routes = state.associationSet.foldl
      (state.addAssociation (state.ifaceAssocSet.foldl addAlias reached)) (clearRoutes 0 state.oldRoutes))
    (tables : state.ShortestPathTables ⟨reached, state.ifaceAssocSet.foldl addAlias reached, routes⟩) :
    state.Consistent := by
  have strict : state.TwoHopsStrict := by
    intro address leads
    obtain ⟨entry, isEntry, -, isTwo⟩ := twoHopTable_of_leadsTo leads
    exact pathLength_two.mp ((tables.paths address 2).mp ⟨entry, grown.keeps isEntry, isTwo⟩)
  refine ⟨interfacesLast_iff.mpr fun tuple mem isSym link isLink => ?_, strict, fun dist isDistance => ?_, ?_⟩
  · obtain ⟨other, isOther, same, isEntry⟩ := tables.direct tuple mem isSym link isLink
    have isOneHop : state.OneHop link.neighborIfaceAddr := ⟨tuple, mem, isSym, .inl ⟨link, isLink, rfl⟩⟩
    obtain ⟨entry, isOne⟩ := Option.isSome_iff_exists.mp (oneHopTable_isSome.mpr isOneHop)
    have kept := table_of_oneHop grown state.ifaceAssocSet (fun leads => (strict _ leads).1 isOneHop) isOne
    exact ⟨other, isOther, same, isOne.trans (kept.symm.trans isEntry)⟩
  · obtain ⟨entry, isEntry, -⟩ := (tables.aliases _ dist).mpr isDistance
    cases tables.notOwn.symm.trans isEntry
  · intro route isLeft
    have exact := tables.routes
    rw [isRoutes] at exact
    exact (replaceable_iff tables.aliases route).mp ((routesExact_iff state _).mp exact route isLeft)

theorem Consistent.tables (consistent : state.Consistent)
    (grown : Layers.Grown state.edges beyond state.twoHopTable reached)
    (paths : ∀ address dist, (∃ entry, reached address = some entry ∧ entry.distance = dist) ↔
      state.PathLength address dist) :
    state.ShortestPathTables ⟨reached, state.ifaceAssocSet.foldl addAlias reached,
      state.associationSet.foldl (state.addAssociation (state.ifaceAssocSet.foldl addAlias reached))
        (clearRoutes 0 state.oldRoutes)⟩ := by
  have direct := interfacesLast_iff.mp consistent.interfacesLast
  obtain ⟨keeps, ofMain⟩ := foldl_addAlias state.ifaceAssocSet reached
  have kept : ∀ {address entry}, state.oneHopTable address = some entry ->
      state.ifaceAssocSet.foldl addAlias reached address = some entry := by
    intro address entry isEntry
    refine table_of_oneHop grown state.ifaceAssocSet (fun leads => ?_) isEntry
    exact (consistent.twoHopsStrict address leads).1 (oneHopTable_isSome.mp (by rw [isEntry]; rfl))
  have aliases : ∀ address dist, (∃ entry, state.ifaceAssocSet.foldl addAlias reached address = some entry ∧
      entry.distance = dist) ↔ state.Distance address dist := by
    intro address dist
    rw [foldl_addAlias_distance, Distance]
    simp only [paths]
  have destinations : ∀ {address entry}, reached address = some entry -> entry.destAddr = address := by
    intro address entry isEntry
    cases here : state.twoHopTable address with
    | none =>
      obtain ⟨-, -, -, -, rfl⟩ := grown.parent here isEntry
      rfl
    | some former =>
      cases (grown.keeps here).symm.trans isEntry
      exact (twoHopTable_entry here).1
  have hop : ∀ {address entry}, state.ifaceAssocSet.foldl addAlias reached address = some entry ->
      HopIn (state.ifaceAssocSet.foldl addAlias reached) entry := by
    intro address entry isEntry
    apply kept
    refine foldl_addAlias_hopIn (fun {address entry} isReached => ?_) state.ifaceAssocSet isEntry
    refine grown.forall_entry distance_beyond (fun {node former} isFormer => ?_) (fun _ _ isHop => isHop.congr rfl rfl)
      isReached
    exact foldl_addTwoHop_hopIn direct.hopIn state.twoHopNeighborSet isFormer
  refine ⟨paths, keeps, aliases, ofMain, fun {address entry} isEntry => ?_, fun tuple mem isSym link isLink => ?_,
    fun {address entry} isEntry far => ?_, ?_, hop, fun isEntry fuel enough => (hop isEntry).send enough, ?_⟩
  · cases here : reached address with
    | none =>
      obtain ⟨-, -, -, -, -, rfl⟩ := ofMain here isEntry
      rfl
    | some former =>
      cases (keeps here).symm.trans isEntry
      exact destinations here
  · obtain ⟨other, isOther, same, isEntry⟩ := direct tuple mem isSym link isLink
    exact ⟨other, isOther, same, kept isEntry⟩
  · cases here : state.twoHopTable address with
    | none =>
      obtain ⟨last, before, edge, isBefore, isEntry⟩ := grown.parent here isEntry
      obtain ⟨tuple, mem, same⟩ := List.mem_map.mp edge
      obtain ⟨rfl, rfl⟩ := Prod.mk.inj same
      exact ⟨tuple, mem, rfl, before, isBefore, isEntry⟩
    | some former =>
      cases (grown.keeps here).symm.trans isEntry
      have near := (twoHopTable_entry here).2
      omega
  · by_contra isOwn
    obtain ⟨entry, isEntry⟩ := Option.ne_none_iff_exists'.mp isOwn
    exact consistent.notOwn entry.distance ((aliases _ _).mp ⟨entry, isEntry, rfl⟩)
  · apply (routesExact_iff state _).mpr
    intro route isLeft
    exact (@replaceable_iff state ⟨reached, _, []⟩ aliases route).mpr (consistent.replaced route isLeft)

/-- The computation ends, and makes the tables of the shortest paths exactly if the information of
the node is consistent and the routes that the clearing leaves are replaced. -/
theorem shortestPathTables_iff (state : OlsrState) :
    ∃ result, (∀ fuel, state.topologySet.length < fuel -> state.routingTableComputation fuel = some result) ∧
      (state.ShortestPathTables result ↔ state.Consistent) := by
  obtain ⟨reached, isReached, grown, paths⟩ := @rounds_spec state
  refine ⟨⟨reached, state.ifaceAssocSet.foldl addAlias reached, state.associationSet.foldl (state.addAssociation
    (state.ifaceAssocSet.foldl addAlias reached)) (clearRoutes 0 state.oldRoutes)⟩, fun fuel enough => ?_, ?_⟩
  · rw [routingTableComputation, isReached fuel enough]
    rfl
  · constructor
    · exact ShortestPathTables.consistent grown rfl
    · intro consistent
      exact consistent.tables grown (paths consistent.twoHopsStrict)

/-- Routes of an earlier computation, for two networks that are no longer announced. -/
def withdrawn : OlsrState where
  mainAddress := ⟨1⟩
  interfaces := [[⟨1⟩]]
  now := 0
  hnaRoutes := [⟨⟨⟨0x0a000000⟩, ⟨0xff000000⟩⟩, ⟨2⟩, 0, 1, true⟩, ⟨⟨⟨0x0b000000⟩, ⟨0xff000000⟩⟩, ⟨2⟩, 0, 1, true⟩]

/-- Two neighbours, 2 and 3 with interfaces 4 and 5, that each report the interface of the other. -/
def crossed : OlsrState where
  mainAddress := ⟨1⟩
  interfaces := [[⟨1⟩]]
  now := 0
  neighborSet := [⟨⟨2⟩, .sym, 3⟩, ⟨⟨3⟩, .sym, 3⟩]
  linkSet := [⟨⟨1⟩, ⟨4⟩, 0⟩, ⟨⟨1⟩, ⟨5⟩, 0⟩]
  twoHopNeighborSet := [⟨⟨3⟩, ⟨4⟩⟩, ⟨⟨2⟩, ⟨5⟩⟩]
  ifaceAssocSet := [⟨⟨4⟩, ⟨2⟩⟩, ⟨⟨5⟩, ⟨3⟩⟩]

/-- One of the withdrawn routes stays, and the entries of the crossed interfaces lead to each other
for ever. -/
theorem not_shortestPathTables :
    (∃ result, withdrawn.routingTableComputation 1 = some result ∧ result.hnaRoutes ≠ [] ∧
      ¬withdrawn.ShortestPathTables result) ∧
    ∃ result entry, crossed.routingTableComputation 1 = some result ∧ result.table ⟨4⟩ = some entry ∧
      ∀ fuel, result.table.findSendEntry fuel entry = none := by
  constructor
  · refine ⟨_, rfl, by decide, fun tables => ?_⟩
    exact Bool.false_ne_true (tables.routes.fresh _ List.mem_cons_self)
  · have computed : (crossed.routingTableComputation 1).isSome = true := rfl
    obtain ⟨result, isResult⟩ := Option.isSome_iff_exists.mp computed
    have forth : result.table ⟨4⟩ = some ⟨⟨4⟩, ⟨5⟩, 0, 2⟩ := by
      cases isResult
      decide +kernel
    have back : result.table ⟨5⟩ = some ⟨⟨5⟩, ⟨4⟩, 0, 2⟩ := by
      cases isResult
      decide +kernel
    refine ⟨result, _, isResult, forth, fun fuel => ?_⟩
    suffices both : result.table.findSendEntry fuel ⟨⟨4⟩, ⟨5⟩, 0, 2⟩ = none ∧
        result.table.findSendEntry fuel ⟨⟨5⟩, ⟨4⟩, 0, 2⟩ = none from both.1
    induction fuel with
    | zero => exact ⟨rfl, rfl⟩
    | succ fuel ih =>
      constructor
      · rw [RoutingTable.findSendEntry, if_neg (by decide), back]
        exact ih.2
      · rw [RoutingTable.findSendEntry, if_neg (by decide), forth]
        exact ih.1

end OlsrState
end Ns3.Olsr
