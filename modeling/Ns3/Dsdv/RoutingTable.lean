import Std.Data.TreeMap.Lemmas
import Ns3.Network.Ipv4Address

/-!
# The routing tables of DSDV

A table is a map in the order of the addresses. An entry points to a route object, which it shares
with the entries it was copied to and from: setting the next hop of one of them sets that of all.
-/

namespace Ns3.Dsdv

open Ns3.Network

instance : Ord Ipv4Address := ⟨compareOn Ipv4Address.bits⟩

instance : Std.TransOrd Ipv4Address :=
  inferInstanceAs (Std.TransCmp (compareOn Ipv4Address.bits))

instance : Std.LawfulEqOrd Ipv4Address where
  eq_of_compare := by
    rintro ⟨a⟩ ⟨b⟩ same
    exact congrArg Ipv4Address.mk (Std.LawfulEqOrd.eq_of_compare same)

/-- `127.0.0.1`. -/
def loopback : Ipv4Address :=
  ⟨0x7f000001⟩

/-- The states of an entry. -/
inductive RouteFlags where
  | valid
  | invalid
  deriving DecidableEq

/-- A route object, as far as routing reads it. -/
structure Ipv4Route where
  destination : Ipv4Address
  gateway : Ipv4Address

/-- `lifeTime` is the time of the last update; `ipv4Route` says which route object the entry points
to. -/
structure RoutingTableEntry where
  seqNo : Nat
  hops : Nat
  lifeTime : Nat
  ipv4Route : Nat
  flag : RouteFlags
  entriesChanged : Bool

/-- The route objects of a node, by what an entry points to. -/
abbrev Routes := Nat -> Ipv4Route

namespace RoutingTableEntry

/-- An entry has its destination from the route object it points to. -/
def getDestination (routes : Routes) (rt : RoutingTableEntry) : Ipv4Address :=
  (routes rt.ipv4Route).destination

/-- So has it its next hop. -/
def getNextHop (routes : Routes) (rt : RoutingTableEntry) : Ipv4Address :=
  (routes rt.ipv4Route).gateway

/-- How long ago the entry was updated. -/
def getLifeTime (now : Nat) (rt : RoutingTableEntry) : Int :=
  now - rt.lifeTime

end RoutingTableEntry

/-- `m_ipv4AddressEntry`, in the order of the addresses. -/
abbrev RoutingTable := Std.TreeMap Ipv4Address RoutingTableEntry

namespace RoutingTable

variable {routes : Routes} {table : RoutingTable} {dst other : Ipv4Address} {rt : RoutingTableEntry}

/-- The `LookupRoute` of an address. -/
def lookupRoute (table : RoutingTable) (id : Ipv4Address) : Option RoutingTableEntry :=
  table[id]?

/-- `DeleteRoute`, of one entry at most. -/
def deleteRoute (table : RoutingTable) (dst : Ipv4Address) : RoutingTable :=
  table.erase dst

/-- An entry that is there already stays as it is. -/
def addRoute (routes : Routes) (table : RoutingTable) (rt : RoutingTableEntry) : RoutingTable :=
  table.insertIfNew (rt.getDestination routes) rt

/-- Only an entry that is there is replaced. -/
def update (routes : Routes) (table : RoutingTable) (rt : RoutingTableEntry) : RoutingTable :=
  table.modify (rt.getDestination routes) fun _ => rt

/-- `GetListOfAllRoutes`: the valid entries that are not the loopback one. -/
def getListOfAllRoutes (routes : Routes) (table : RoutingTable) : List (Ipv4Address × RoutingTableEntry) :=
  table.toList.filter fun i => i.2.getDestination routes ≠ loopback ∧ i.2.flag = .valid

/-- The entries whose route leads through a node. -/
def getListOfDestinationWithNextHop (routes : Routes) (table : RoutingTable) (nextHop : Ipv4Address) :
    List (Ipv4Address × RoutingTableEntry) :=
  table.toList.filter fun i => i.2.getNextHop routes = nextHop

/-- An entry that goes when the one for its next hop does. -/
def dependsOn (routes : Routes) (rt j : RoutingTableEntry) : Bool :=
  j.getNextHop routes = rt.getDestination routes ∧ rt.hops ≠ j.hops

/-- One entry of the walk through the table: what an earlier one took along is passed over. -/
def purgeEntry (routes : Routes) (holddownTime : Nat) (now : Nat)
    (state : RoutingTable × RoutingTable) (i : Ipv4Address) : RoutingTable × RoutingTable :=
  match state.1[i]? with
  | none => state
  | some rt =>
    if holddownTime < rt.getLifeTime now ∧ 0 < rt.hops then
      ((state.1.filter fun _ j => !dependsOn routes rt j).erase i,
        ((state.1.filter fun _ j => dependsOn routes rt j) ∪ state.2).insertIfNew i rt)
    else state

/-- The table without the entries past the hold-down time and those that depend on them, and the
entries removed. -/
def purge (routes : Routes) (holddownTime : Nat) (now : Nat) (table : RoutingTable) : RoutingTable × RoutingTable :=
  table.keys.foldl (purgeEntry routes holddownTime now) (table, ∅)

theorem lookupRoute_deleteRoute :
    (table.deleteRoute dst).lookupRoute other = if dst = other then none else table.lookupRoute other := by
  simp [deleteRoute, lookupRoute, Std.TreeMap.getElem?_erase]

theorem lookupRoute_insertIfNew : lookupRoute (table.insertIfNew dst rt) other =
    if dst = other then some ((table.lookupRoute other).getD rt) else table.lookupRoute other := by
  simp only [lookupRoute, Std.TreeMap.getElem?_insertIfNew, Std.compare_eq_iff_eq]
  by_cases same : dst = other
  · subst same
    cases found : table[dst]? with
    | none => simp [Std.TreeMap.mem_iff_isSome_getElem?, found]
    | some old => simp [Std.TreeMap.mem_iff_isSome_getElem?, found]
  · simp [same]

theorem lookupRoute_addRoute : (table.addRoute routes rt).lookupRoute other =
    if rt.getDestination routes = other then some ((table.lookupRoute other).getD rt) else table.lookupRoute other :=
  lookupRoute_insertIfNew

theorem lookupRoute_update : (table.update routes rt).lookupRoute other =
    if rt.getDestination routes = other then
      (table.lookupRoute other).map fun _ => rt else table.lookupRoute other := by
  simp only [update, lookupRoute, Std.TreeMap.getElem?_modify, Std.compare_eq_iff_eq]
  by_cases same : rt.getDestination routes = other
  · rw [if_pos same, if_pos same, same]
  · rw [if_neg same, if_neg same]

variable {i : Ipv4Address × RoutingTableEntry}

theorem mem_getListOfAllRoutes (mem : i ∈ table.getListOfAllRoutes routes) : table.lookupRoute i.1 = some i.2 :=
  Std.TreeMap.mem_toList_iff_getElem?_eq_some.mp (List.mem_filter.mp mem).1

theorem mem_getListOfDestinationWithNextHop {nextHop : Ipv4Address}
    (mem : i ∈ table.getListOfDestinationWithNextHop routes nextHop) :
    table.lookupRoute i.1 = some i.2 ∧ i.2.getNextHop routes = nextHop := by
  obtain ⟨listed, through⟩ := List.mem_filter.mp mem
  exact ⟨Std.TreeMap.mem_toList_iff_getElem?_eq_some.mp listed, by simpa using through⟩

/-- An entry a purge may remove: a route, or an entry whose next hop is the destination of a route. -/
def Removable (routes : Routes) (table : RoutingTable) (rt : RoutingTableEntry) : Prop :=
  0 < rt.hops ∨ ∃ dst via, table.lookupRoute dst = some via ∧ 0 < via.hops ∧
    rt.getNextHop routes = via.getDestination routes

/-- What a purge has done to a table so far. -/
structure Purged (routes : Routes) (table : RoutingTable) (state : RoutingTable × RoutingTable) : Prop where
  kept : ∀ dst rt, state.1.lookupRoute dst = some rt -> table.lookupRoute dst = some rt
  removed : ∀ dst rt, state.2.lookupRoute dst = some rt ↔
    table.lookupRoute dst = some rt ∧ state.1.lookupRoute dst = none
  removable : ∀ dst rt, table.lookupRoute dst = some rt -> state.1.lookupRoute dst = none -> Removable routes table rt

theorem Purged.purgeEntry {state : RoutingTable × RoutingTable} (purged : Purged routes table state)
    (holddownTime now : Nat) (i : Ipv4Address) : Purged routes table (purgeEntry routes holddownTime now state i) := by
  rw [RoutingTable.purgeEntry]
  split
  case h_1 => exact purged
  case h_2 rt found =>
    split
    case isFalse => exact purged
    case isTrue expired =>
      have here : table.lookupRoute i = some rt := purged.kept i rt found
      have left : ∀ dst, lookupRoute ((state.1.filter fun _ j => !dependsOn routes rt j).erase i) dst =
          if i = dst then none else (state.1.lookupRoute dst).filter fun j => !dependsOn routes rt j := by
        intro dst
        simp [lookupRoute, Std.TreeMap.getElem?_erase]
      have out : ∀ dst, lookupRoute
        (((state.1.filter fun _ j => dependsOn routes rt j) ∪ state.2).insertIfNew i rt) dst =
          let before := (state.2.lookupRoute dst).or ((state.1.lookupRoute dst).filter (dependsOn routes rt))
          if i = dst then some (before.getD rt) else before := by
        intro dst
        rw [lookupRoute_insertIfNew]
        simp only [lookupRoute, Std.TreeMap.getElem?_union, Std.TreeMap.getElem?_filter']
      have independent : dependsOn routes rt rt = false := by simp [dependsOn]
      have notOut : ∀ dst j, state.1.lookupRoute dst = some j -> state.2.lookupRoute dst = none := by
        intro dst j held
        cases gone : state.2.lookupRoute dst with
        | none => rfl
        | some old => exact absurd (((purged.removed dst old).mp gone).2) (by simp [held])
      have foundHere : state.1.lookupRoute i = some rt := found
      refine ⟨fun dst j held => ?_, fun dst j => ?_, fun dst j listed gone => ?_⟩
      · rw [left] at held
        split at held
        case isTrue => cases held
        case isFalse => exact purged.kept dst j (Option.eq_some_of_filter_eq_some held)
      · rw [left, out]
        by_cases same : i = dst
        · subst same
          simp [notOut i rt foundHere, foundHere, Option.filter_some, independent, here]
        · rw [if_neg same, if_neg same]
          cases held : state.1.lookupRoute dst with
          | none => simp [purged.removed, held]
          | some old =>
            have listed := purged.kept dst old held
            cases depends : dependsOn routes rt old <;> simp [notOut dst old held, Option.filter_some, depends, listed]
      · by_cases same : i = dst
        · subst same
          obtain rfl := Option.some.inj (here.symm.trans listed)
          exact .inl expired.2
        · rw [left, if_neg same] at gone
          cases held : state.1.lookupRoute dst with
          | none => exact purged.removable dst j listed held
          | some old =>
            obtain rfl := Option.some.inj ((purged.kept dst old held).symm.trans listed)
            have depends : dependsOn routes rt old = true := by simpa [held] using gone
            have through : old.getNextHop routes = rt.getDestination routes := by
              simp only [dependsOn, decide_eq_true_eq] at depends
              exact depends.1
            exact .inr ⟨i, rt, here, expired.2, through⟩

theorem purged_purge (holddownTime now : Nat) : Purged routes table (table.purge routes holddownTime now) := by
  have start : Purged routes table (table, ∅) := by
    refine ⟨fun _ _ held => held, fun dst rt => ?_, fun dst rt listed gone => ?_⟩
    · have empty : lookupRoute ∅ dst = none := Std.TreeMap.getElem?_emptyc
      cases held : table.lookupRoute dst <;> simp [empty]
    · cases listed.symm.trans gone
  rw [purge]
  generalize table.keys = keys
  generalize (table, (∅ : RoutingTable)) = state at start
  induction keys generalizing state with
  | nil => exact start
  | cons i keys ih => exact ih _ (start.purgeEntry holddownTime now i)

end RoutingTable

end Ns3.Dsdv
