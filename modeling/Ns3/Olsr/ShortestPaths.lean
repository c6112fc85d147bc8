import Ns3.Olsr.OneHop

/-!
# Entries beyond the neighbours

Step 3 follows the two-hop tuples in their order, step 3.1 the topology in breadth-first layers, and
step 4 gives the interfaces of a destination its entry.
-/

namespace Ns3.Olsr

open Network Semantics List Option RoutingTable RoutingTableEntry

namespace OlsrState

variable {state : OlsrState} {address : Ipv4Address} {entry : RoutingTableEntry} {table : RoutingTable}
  {tuples : List TwoHopNeighborTuple}

/-- Two-hop tuples from a one-hop neighbour to an address. -/
inductive PathTo (state : OlsrState) : List TwoHopNeighborTuple -> Ipv4Address -> Prop where
  | first {tuple} (strict : state.isStrict tuple = true) (seen : state.OneHop tuple.neighborMainAddr) :
      PathTo state [tuple] tuple.twoHopNeighborAddr
  | next {path tuple} (prior : PathTo state path tuple.neighborMainAddr) (strict : state.isStrict tuple = true) :
      PathTo state (path ++ [tuple]) tuple.twoHopNeighborAddr

/-- Some of the tuples, in their order, are a path to the address. -/
def LeadsTo (state : OlsrState) (tuples : List TwoHopNeighborTuple) (address : Ipv4Address) : Prop :=
  ∃ path, path.Sublist tuples ∧ state.PathTo path address

/-- The strict two-hop neighbours: no neighbours, and seen by one. -/
def StrictTwoHop (state : OlsrState) (address : Ipv4Address) : Prop :=
  ¬state.OneHop address ∧ ∃ tuple ∈ state.twoHopNeighborSet,
    state.isStrict tuple = true ∧ state.OneHop tuple.neighborMainAddr ∧ tuple.twoHopNeighborAddr = address

/-- No path of two-hop tuples leads to anything but strict two-hop neighbours. -/
def TwoHopsStrict (state : OlsrState) : Prop :=
  ∀ address, state.LeadsTo state.twoHopNeighborSet address -> state.StrictTwoHop address

theorem not_leadsTo_nil : ¬state.LeadsTo [] address := by
  rintro ⟨path, isPath, pathTo⟩
  rw [sublist_nil.mp isPath] at pathTo
  generalize isNil : ([] : List TwoHopNeighborTuple) = none at pathTo
  cases pathTo with
  | first => cases isNil
  | next => simp at isNil

theorem leadsTo_concat {tuple : TwoHopNeighborTuple} : state.LeadsTo (tuples ++ [tuple]) address ↔
    state.LeadsTo tuples address ∨ (state.isStrict tuple = true ∧ tuple.twoHopNeighborAddr = address ∧
      (state.OneHop tuple.neighborMainAddr ∨ state.LeadsTo tuples tuple.neighborMainAddr)) := by
  constructor
  · rintro ⟨path, isPath, pathTo⟩
    obtain ⟨early, late, rfl, isEarly, isLate⟩ := sublist_append_iff.mp isPath
    rcases sublist_singleton.mp isLate with rfl | rfl
    · rw [append_nil] at pathTo
      exact .inl ⟨early, isEarly, pathTo⟩
    · right
      generalize isWhole : early ++ [tuple] = whole at pathTo
      cases pathTo with
      | first strict seen =>
        obtain ⟨-, same⟩ := append_inj' (isWhole.trans (nil_append _).symm) rfl
        obtain rfl := singleton_inj.mp same
        exact ⟨strict, rfl, .inl seen⟩
      | next prior strict =>
        obtain ⟨rfl, same⟩ := append_inj' isWhole rfl
        obtain rfl := singleton_inj.mp same
        exact ⟨strict, rfl, .inr ⟨early, isEarly, prior⟩⟩
  · rintro (⟨path, isPath, pathTo⟩ | ⟨strict, rfl, seen | ⟨path, isPath, pathTo⟩⟩)
    · exact ⟨path, isPath.trans (sublist_append_left _ _), pathTo⟩
    · exact ⟨[tuple], sublist_append_right _ _, .first strict seen⟩
    · exact ⟨path ++ [tuple], isPath.append (List.Sublist.refl _), .next pathTo strict⟩

theorem StrictTwoHop.leadsTo (strict : state.StrictTwoHop address) :
    state.LeadsTo state.twoHopNeighborSet address := by
  obtain ⟨-, tuple, mem, isStrict, seen, rfl⟩ := strict
  exact ⟨[tuple], singleton_sublist.mpr mem, .first isStrict seen⟩

theorem foldl_addTwoHop (tuples : List TwoHopNeighborTuple) (address : Ipv4Address) :
    (state.LeadsTo tuples address -> ∃ entry, tuples.foldl state.addTwoHop state.oneHopTable address = some entry ∧
      entry.destAddr = address ∧ entry.distance = 2) ∧
    (¬state.LeadsTo tuples address ->
      tuples.foldl state.addTwoHop state.oneHopTable address = state.oneHopTable address) := by
  induction tuples using reverseRecOn generalizing address with
  | nil => exact ⟨fun leads => absurd leads not_leadsTo_nil, fun _ => rfl⟩
  | append_singleton tuples last ih =>
    rw [foldl_append, foldl_cons, foldl_nil, leadsTo_concat]
    have isSeen : (tuples.foldl state.addTwoHop state.oneHopTable last.neighborMainAddr).isSome ↔
        state.OneHop last.neighborMainAddr ∨ state.LeadsTo tuples last.neighborMainAddr := by
      obtain ⟨written, kept⟩ := ih last.neighborMainAddr
      by_cases leads : state.LeadsTo tuples last.neighborMainAddr
      · obtain ⟨entry, isEntry, -⟩ := written leads
        rw [isEntry]
        exact iff_of_true rfl (.inr leads)
      · rw [kept leads, oneHopTable_isSome]
        exact (or_iff_left leads).symm
    rw [addTwoHop]
    by_cases strict : state.isStrict last = true
    · rw [if_pos strict]
      cases seen : tuples.foldl state.addTwoHop state.oneHopTable last.neighborMainAddr with
      | none =>
        have unseen := isSeen.not.mp (by rw [seen]; exact Bool.false_ne_true)
        rw [or_iff_left fun new => unseen new.2.2]
        exact ih address
      | some entry =>
        have known := isSeen.mp (by rw [seen]; rfl)
        dsimp only
        by_cases here : address = last.twoHopNeighborAddr
        · subst here
          rw [addEntry_self]
          exact ⟨fun _ => ⟨_, rfl, rfl, rfl⟩, fun none => absurd (.inr ⟨strict, rfl, known⟩) none⟩
        · rw [addEntry_of_ne here, or_iff_left fun new => here new.2.1.symm]
          exact ih address
    · rw [if_neg strict, or_iff_left fun new => strict new.1]
      exact ih address

theorem twoHopTable_of_leadsTo (leads : state.LeadsTo state.twoHopNeighborSet address) :
    ∃ entry, state.twoHopTable address = some entry ∧ entry.destAddr = address ∧ entry.distance = 2 :=
  (foldl_addTwoHop _ address).1 leads

theorem twoHopTable_of_not_leadsTo (not : ¬state.LeadsTo state.twoHopNeighborSet address) :
    state.twoHopTable address = state.oneHopTable address :=
  (foldl_addTwoHop _ address).2 not

theorem foldl_addTwoHop_hopIn (hops : ∀ {address entry}, state.oneHopTable address = some entry ->
      HopIn state.oneHopTable entry) (tuples : List TwoHopNeighborTuple)
        (isEntry : tuples.foldl state.addTwoHop state.oneHopTable address = some entry) :
    HopIn state.oneHopTable entry := by
  induction tuples using reverseRecOn generalizing address entry with
  | nil => exact hops isEntry
  | append_singleton tuples last ih =>
    rw [foldl_append, foldl_cons, foldl_nil] at isEntry
    rw [addTwoHop] at isEntry
    by_cases strict : state.isStrict last = true
    · rw [if_pos strict] at isEntry
      cases seen : tuples.foldl state.addTwoHop state.oneHopTable last.neighborMainAddr with
      | none =>
        rw [seen] at isEntry
        exact ih isEntry
      | some before =>
        rw [seen] at isEntry
        dsimp only at isEntry
        by_cases here : address = last.twoHopNeighborAddr
        · subst here
          rw [addEntry_self] at isEntry
          cases isEntry
          exact (ih seen).congr rfl rfl
        · rw [addEntry_of_ne here] at isEntry
          exact ih isEntry
    · rw [if_neg strict] at isEntry
      exact ih isEntry

def edges (state : OlsrState) : List (Ipv4Address × Ipv4Address) :=
  state.topologySet.map fun tuple => (tuple.lastAddr, tuple.destAddr)

/-- The entry one hop beyond another. -/
def beyond (address : Ipv4Address) (entry : RoutingTableEntry) : RoutingTableEntry :=
  ⟨address, entry.nextAddr, entry.interface, entry.distance + 1⟩

/-- The least number of hops: one to a neighbour, two to a strict two-hop neighbour, and one more
for each topology tuple behind it. -/
def PathLength (state : OlsrState) (address : Ipv4Address) (distance : Nat) : Prop :=
  (state.OneHop address ∧ distance = 1) ∨ (¬state.OneHop address ∧
    IsLeast {steps | Layers.Reaches state.edges state.OneHop state.StrictTwoHop 2 address steps} distance)

/-- A topology tuple adds the entry of its destination if that is new, and its other end has the
distance of the round. -/
def Adds (h : Nat) (table : RoutingTable) (tuple : TopologyTuple) : Prop :=
  table tuple.destAddr = none ∧ ∃ before, table tuple.lastAddr = some before ∧ before.distance = h

theorem addTopology_of_not {h : Nat} {progress : RoutingTable × Bool} {tuple : TopologyTuple}
    (not : ¬Adds h progress.1 tuple) : addTopology h progress tuple = progress := by
  unfold addTopology
  cases isDest : progress.1 tuple.destAddr with
  | some entry => rfl
  | none =>
    cases isLast : progress.1 tuple.lastAddr with
    | none => rfl
    | some before => exact if_neg fun isLength => not ⟨isDest, before, isLast, isLength⟩

theorem foldl_addTopology (h : Nat) (table : RoutingTable) (tuples : List TopologyTuple) :
    Layers.Expansion (tuples.map fun tuple => (tuple.lastAddr, tuple.destAddr)) distance beyond h table
      (tuples.foldl (addTopology h) (table, false)).1 (tuples.foldl (addTopology h) (table, false)).2 := by
  induction tuples using reverseRecOn with
  | nil =>
    refine ⟨id, fun isNone isSome => ?_, by simp, fun _ => rfl, by simp⟩
    cases isNone.symm.trans isSome
  | append_singleton tuples last ih =>
    rw [foldl_append, foldl_cons, foldl_nil, map_append, map_singleton]
    generalize tuples.foldl (addTopology h) (table, false) = progress at ih ⊢
    obtain ⟨next, added⟩ := progress
    dsimp only at ih
    by_cases adds : Adds h next last
    · obtain ⟨isNone, before, isBefore, isLength⟩ := adds
      rw [addTopology]
      dsimp only
      rw [isNone, isBefore]
      dsimp only
      rw [if_pos isLength]
      dsimp only
      have wasNone : table last.destAddr = none := by
        by_contra isSome
        obtain ⟨entry, isEntry⟩ := ne_none_iff_exists'.mp isSome
        cases isNone.symm.trans (ih.keeps isEntry)
      have wasBefore : table last.lastAddr = some before := by
        cases here : table last.lastAddr with
        | some former => exact (ih.keeps here).symm.trans isBefore
        | none =>
          obtain ⟨_, other, _, _, isOther, rfl⟩ := ih.justified here isBefore
          rw [← isOther] at isLength
          exact absurd isLength (Nat.succ_ne_self _)
      refine ⟨fun {node entry} isEntry => ?_, fun {node entry} without isEntry => ?_,
        fun {from_ node former} edge isFormer atLength => ?_, fun impossible => ?_, fun _ => ?_⟩
      · have other : node ≠ last.destAddr := by
          rintro rfl
          cases wasNone.symm.trans isEntry
        rw [addEntry_of_ne other]
        exact ih.keeps isEntry
      · by_cases here : node = last.destAddr
        · subst here
          rw [addEntry_self] at isEntry
          cases isEntry
          exact ⟨last.lastAddr, before, by simp, wasBefore, isLength, by rw [beyond, isLength]⟩
        · rw [addEntry_of_ne here] at isEntry
          obtain ⟨other, former, edge, rest⟩ := ih.justified without isEntry
          exact ⟨other, former, mem_append_left _ edge, rest⟩
      · by_cases here : node = last.destAddr
        · subst here
          rw [addEntry_self]
          rfl
        · rw [addEntry_of_ne here]
          rcases mem_append.mp edge with old | new
          · exact ih.complete old isFormer atLength
          · obtain ⟨-, isDest⟩ := Prod.mk.inj (mem_singleton.mp new)
            exact absurd isDest here
      · cases impossible
      · refine ⟨(last.lastAddr, last.destAddr), by simp, wasNone, ?_⟩
        dsimp only
        rw [addEntry_self]
        rfl
    · rw [addTopology_of_not adds]
      refine ⟨ih.keeps, fun without isEntry => ?_,
        fun {from_ node former} edge isFormer atLength => ?_, ih.same, fun isAdded => ?_⟩
      · obtain ⟨other, former, edge, rest⟩ := ih.justified without isEntry
        exact ⟨other, former, mem_append_left _ edge, rest⟩
      · rcases mem_append.mp edge with old | new
        · exact ih.complete old isFormer atLength
        · obtain ⟨rfl, rfl⟩ := Prod.mk.inj (mem_singleton.mp new)
          rw [← not_isNone, Bool.not_eq_true', ← Bool.not_eq_true, isNone_iff_eq_none]
          exact fun isNone => adds ⟨isNone, former, ih.keeps isFormer, atLength⟩
      · obtain ⟨edge, mem, rest⟩ := ih.grows isAdded
        exact ⟨edge, mem_append_left _ mem, rest⟩

theorem topologyRound_expansion (h : Nat) (table : RoutingTable) :
    Layers.Expansion state.edges distance beyond h table (state.topologyRound h table).1
      (state.topologyRound h table).2 :=
  foldl_addTopology h table state.topologySet

theorem TwoHopsStrict.layered (strict : state.TwoHopsStrict) :
    Layers.Layered state.edges state.OneHop state.StrictTwoHop 2 distance state.twoHopTable 2 := by
  refine ⟨Nat.le_refl 2, fun {node} isOneHop => ?_, fun {node} opened steps => ⟨?_, ?_⟩⟩
  · rw [twoHopTable_of_not_leadsTo fun leads => (strict node leads).1 isOneHop]
    obtain ⟨entry, isEntry⟩ := isSome_iff_exists.mp (oneHopTable_isSome.mpr isOneHop)
    exact ⟨entry, isEntry, by rw [(oneHopTable_entry isEntry).2]; decide⟩
  · rintro ⟨entry, isEntry, rfl⟩
    by_cases leads : state.LeadsTo state.twoHopNeighborSet node
    · obtain ⟨written, isWritten, -, isTwo⟩ := twoHopTable_of_leadsTo leads
      cases isEntry.symm.trans isWritten
      rw [isTwo]
      exact ⟨⟨.seed (strict node leads), fun other reaches => reaches.start_le⟩, Nat.le_refl 2⟩
    · rw [twoHopTable_of_not_leadsTo leads] at isEntry
      exact absurd (oneHopTable_isSome.mp (by rw [isEntry]; rfl)) opened
  · rintro ⟨isLeast, le⟩
    obtain rfl := Nat.le_antisymm le isLeast.1.start_le
    have isStrict := Layers.reaches_start.mp isLeast.1
    obtain ⟨entry, isEntry, -, isTwo⟩ := twoHopTable_of_leadsTo isStrict.leadsTo
    exact ⟨entry, isEntry, isTwo⟩

/-- The rounds of step 3.1 end, and if only strict two-hop neighbours are led to, in the table of
the path lengths. -/
theorem rounds_spec : ∃ reached, (∀ fuel, state.topologySet.length < fuel ->
      Layers.rounds state.topologyRound fuel 2 state.twoHopTable = some reached) ∧
    Layers.Grown state.edges beyond state.twoHopTable reached ∧
    (state.TwoHopsStrict -> ∀ address dist, (∃ entry, reached address = some entry ∧ entry.distance = dist) ↔
      state.PathLength address dist) := by
  obtain ⟨reached, isReached, grown, exact⟩ := @Layers.rounds_spec _ _ state.edges state.OneHop state.StrictTwoHop 2
    distance beyond state.twoHopTable state.topologyRound (fun _ _ => rfl) topologyRound_expansion
  refine ⟨reached, fun fuel enough => isReached fuel (by rwa [edges, length_map]), grown, fun strict => ?_⟩
  intro address dist
  have layered := strict.layered
  unfold PathLength
  by_cases isOneHop : state.OneHop address
  · obtain ⟨entry, isEntry⟩ := isSome_iff_exists.mp (oneHopTable_isSome.mpr isOneHop)
    have isReached : reached address = some entry := by
      apply grown.keeps
      rwa [twoHopTable_of_not_leadsTo fun leads => (strict address leads).1 isOneHop]
    simp only [isReached, Option.some.injEq, exists_eq_left', (oneHopTable_entry isEntry).2, isOneHop, true_and,
      not_true_eq_false, false_and, or_false, eq_comm]
  · rw [exact (fun isStrict => isStrict.1) layered address isOneHop]
    simp only [isOneHop, false_and, not_false_eq_true, true_and, false_or]

/-- The distances when each interface, in the order of the associations, gets that of its main
address unless it has one. -/
def aliased (known : Ipv4Address -> Nat -> Prop) : List IfaceAssocTuple -> Ipv4Address -> Nat -> Prop
  | [] => known
  | tuple :: tuples =>
    aliased (fun address distance => known address distance ∨
      (address = tuple.ifaceAddr ∧ (∀ other, ¬known address other) ∧ known tuple.mainAddr distance)) tuples

theorem addAlias_cases (table : RoutingTable) (tuple : IfaceAssocTuple) :
    (addAlias table tuple = table ∧ (table tuple.mainAddr = none ∨ (table tuple.ifaceAddr).isSome)) ∨
      ∃ entry, table tuple.mainAddr = some entry ∧ table tuple.ifaceAddr = none ∧
        addAlias table tuple = table.addEntry tuple.ifaceAddr entry.nextAddr entry.interface entry.distance := by
  unfold addAlias
  cases table tuple.mainAddr with
  | none => exact .inl ⟨rfl, .inl rfl⟩
  | some entry =>
    cases table tuple.ifaceAddr with
    | none => exact .inr ⟨entry, rfl, rfl, rfl⟩
    | some other => exact .inl ⟨rfl, .inr rfl⟩

theorem addAlias_distance (table : RoutingTable) (tuple : IfaceAssocTuple) (address : Ipv4Address) (dist : Nat) :
    (∃ entry, addAlias table tuple address = some entry ∧ entry.distance = dist) ↔
      ((∃ entry, table address = some entry ∧ entry.distance = dist) ∨
        (address = tuple.ifaceAddr ∧ (∀ other, ¬∃ entry, table address = some entry ∧ entry.distance = other) ∧
          ∃ entry, table tuple.mainAddr = some entry ∧ entry.distance = dist)) := by
  rcases addAlias_cases table tuple with ⟨same, unchanged⟩ | ⟨entry, isMain, isNone, isAdded⟩
  · rw [same]
    refine (or_iff_left ?_).symm
    rintro ⟨rfl, without, entry, isMain, -⟩
    rcases unchanged with isNone | isSome
    · cases isNone.symm.trans isMain
    · obtain ⟨other, isOther⟩ := isSome_iff_exists.mp isSome
      exact without other.distance ⟨other, isOther, rfl⟩
  · rw [isAdded]
    by_cases here : address = tuple.ifaceAddr
    · subst here
      rw [addEntry_self, isNone, isMain]
      simp
    · rw [addEntry_of_ne here]
      exact (or_iff_left fun new => here new.1).symm

theorem foldl_addAlias_distance (tuples : List IfaceAssocTuple) (table : RoutingTable) (address : Ipv4Address)
    (dist : Nat) : (∃ entry, tuples.foldl addAlias table address = some entry ∧ entry.distance = dist) ↔
      aliased (fun address dist => ∃ entry, table address = some entry ∧ entry.distance = dist) tuples address
        dist := by
  induction tuples generalizing table with
  | nil => exact Iff.rfl
  | cons tuple tuples ih =>
    rw [foldl_cons, ih, aliased]
    simp only [addAlias_distance]

theorem foldl_addAlias (tuples : List IfaceAssocTuple) (table : RoutingTable) :
    (∀ {address entry}, table address = some entry -> tuples.foldl addAlias table address = some entry) ∧
      ∀ {address entry}, table address = none -> tuples.foldl addAlias table address = some entry ->
        ∃ tuple ∈ tuples, tuple.ifaceAddr = address ∧ ∃ main, tuples.foldl addAlias table tuple.mainAddr = some main ∧
          entry = { main with destAddr := address } := by
  induction tuples using reverseRecOn with
  | nil => exact ⟨id, fun isNone isSome => by cases isNone.symm.trans isSome⟩
  | append_singleton tuples last ih =>
    rw [foldl_append, foldl_cons, foldl_nil]
    generalize tuples.foldl addAlias table = before at ih ⊢
    obtain ⟨keeps, justified⟩ := ih
    have stays : ∀ {address entry}, before address = some entry -> addAlias before last address = some entry := by
      intro address entry isEntry
      rcases addAlias_cases before last with ⟨same, -⟩ | ⟨main, isMain, isNone, isAdded⟩
      · rwa [same]
      · have other : address ≠ last.ifaceAddr := by
          rintro rfl
          cases isNone.symm.trans isEntry
        rwa [isAdded, addEntry_of_ne other]
    refine ⟨fun isEntry => stays (keeps isEntry), fun {address entry} without isEntry => ?_⟩
    cases here : before address with
    | some former =>
      cases (stays here).symm.trans isEntry
      obtain ⟨tuple, mem, isIface, main, isMain, rfl⟩ := justified without here
      exact ⟨tuple, mem_append_left _ mem, isIface, main, stays isMain, rfl⟩
    | none =>
      rcases addAlias_cases before last with ⟨same, -⟩ | ⟨main, isMain, -, isAdded⟩
      · rw [same, here] at isEntry
        cases isEntry
      · rw [isAdded] at isEntry
        by_cases isLast : address = last.ifaceAddr
        · subst isLast
          rw [addEntry_self] at isEntry
          cases isEntry
          exact ⟨last, by simp, rfl, main, stays isMain, rfl⟩
        · rw [addEntry_of_ne isLast, here] at isEntry
          cases isEntry

theorem foldl_addAlias_hopIn (hops : ∀ {address entry}, table address = some entry -> HopIn state.oneHopTable entry)
    (tuples : List IfaceAssocTuple) (isEntry : tuples.foldl addAlias table address = some entry) :
    HopIn state.oneHopTable entry := by
  induction tuples generalizing table with
  | nil => exact hops isEntry
  | cons first tuples ih =>
    apply ih ?_ isEntry
    intro address entry isEntry
    rcases addAlias_cases table first with ⟨same, -⟩ | ⟨main, isMain, -, isAdded⟩
    · rw [same] at isEntry
      exact hops isEntry
    · rw [isAdded] at isEntry
      by_cases here : address = first.ifaceAddr
      · subst here
        rw [addEntry_self] at isEntry
        cases isEntry
        exact (hops isMain).congr rfl rfl
      · rw [addEntry_of_ne here] at isEntry
        exact hops isEntry

end OlsrState
end Ns3.Olsr
