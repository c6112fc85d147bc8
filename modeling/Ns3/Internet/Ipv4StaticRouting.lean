import Ns3.Network.Ipv4Address

/-!
# IPv4 static routing

`LookupStatic` goes once over the table and keeps the route with the longest mask and, of those, the
smallest metric. It stops at the first host route, whatever its metric is.
-/

namespace Ns3.Internet

open Ns3.Network List

structure Ipv4RoutingTableEntry where
  dest : Ipv4Address
  destNetworkMask : Ipv4Mask
  gateway : Ipv4Address
  interface : UInt32
  deriving DecidableEq

/-- An entry with its metric. -/
structure NetworkRoute where
  route : Ipv4RoutingTableEntry
  metric : UInt32
  deriving DecidableEq

def NetworkRoute.prefixLength (row : NetworkRoute) : Nat :=
  row.route.destNetworkMask.getPrefixLength

structure Ipv4Route (Device : Type) where
  destination : Ipv4Address
  source : Ipv4Address
  gateway : Ipv4Address
  outputDevice : Device
  deriving DecidableEq

/-- What static routing asks its `Ipv4`. -/
structure Ipv4Interfaces (Device : Type) where
  getNetDevice : UInt32 -> Device
  sourceAddressSelection : UInt32 -> Ipv4Address -> Ipv4Address
  /-- The first address of the interface of a device. -/
  getAddress : Device -> Ipv4Address

/-- `m_networkRoutes`. -/
abbrev Ipv4StaticRouting := List NetworkRoute

namespace Ipv4StaticRouting

variable (networkRoutes : Ipv4StaticRouting)

def lookupRoute (route : Ipv4RoutingTableEntry) (metric : UInt32) : Bool :=
  networkRoutes.any fun j => j.route.dest = route.dest && j.route.destNetworkMask = route.destNetworkMask &&
    j.route.gateway = route.gateway && j.route.interface = route.interface && j.metric = metric

def addNetworkRouteTo (network : Ipv4Address) (networkMask : Ipv4Mask)
    (nextHop : Ipv4Address) (interface metric : UInt32) : Ipv4StaticRouting :=
  let route : Ipv4RoutingTableEntry := ⟨network, networkMask, nextHop, interface⟩
  if !networkRoutes.lookupRoute route metric then networkRoutes ++ [⟨route, metric⟩] else networkRoutes

/-- Without a next hop. -/
def addNetworkRouteToInterface (network : Ipv4Address) (networkMask : Ipv4Mask)
    (interface metric : UInt32) : Ipv4StaticRouting :=
  networkRoutes.addNetworkRouteTo network networkMask .any interface metric

def addHostRouteTo (dest nextHop : Ipv4Address) (interface metric : UInt32) : Ipv4StaticRouting :=
  networkRoutes.addNetworkRouteTo dest .ones nextHop interface metric

def addHostRouteToInterface (dest : Ipv4Address) (interface metric : UInt32) : Ipv4StaticRouting :=
  networkRoutes.addNetworkRouteToInterface dest .ones interface metric

def setDefaultRoute (nextHop : Ipv4Address) (interface metric : UInt32) : Ipv4StaticRouting :=
  networkRoutes.addNetworkRouteTo .any ⟨0⟩ nextHop interface metric

/-- Calls that add a route. -/
inductive Call where
  | network (network : Ipv4Address) (networkMask : Ipv4Mask) (nextHop : Ipv4Address) (interface metric : UInt32)
  | networkInterface (network : Ipv4Address) (networkMask : Ipv4Mask) (interface metric : UInt32)
  | host (dest nextHop : Ipv4Address) (interface metric : UInt32)
  | hostInterface (dest : Ipv4Address) (interface metric : UInt32)
  | default (nextHop : Ipv4Address) (interface metric : UInt32)

def after : Call -> Ipv4StaticRouting
  | .network network networkMask nextHop interface metric =>
    networkRoutes.addNetworkRouteTo network networkMask nextHop interface metric
  | .networkInterface network networkMask interface metric =>
    networkRoutes.addNetworkRouteToInterface network networkMask interface metric
  | .host dest nextHop interface metric => networkRoutes.addHostRouteTo dest nextHop interface metric
  | .hostInterface dest interface metric => networkRoutes.addHostRouteToInterface dest interface metric
  | .default nextHop interface metric => networkRoutes.setDefaultRoute nextHop interface metric

/-- The table that some calls build. -/
def built (calls : List Call) : Ipv4StaticRouting :=
  calls.foldl after []

section Lookup

variable {Device : Type} (ipv4 : Ipv4Interfaces Device) (dest : Ipv4Address) (oif : Option Device)

structure Lookup (Device : Type) where
  rtentry : Option (Ipv4Route Device) := none
  longestMask : Nat := 0
  shortestMetric : UInt32 := 0xffffffff

/-- The route of an entry. -/
def createRoute (route : Ipv4RoutingTableEntry) : Ipv4Route Device where
  destination := route.dest
  source := ipv4.sourceAddressSelection route.interface route.dest
  gateway := route.gateway
  outputDevice := ipv4.getNetDevice route.interface

def lookupLoop [DecidableEq Device] : List NetworkRoute -> Lookup Device -> Lookup Device
  | [], found => found
  | ⟨j, metric⟩ :: rest, found =>
    let masklen := j.destNetworkMask.getPrefixLength
    if j.destNetworkMask.isMatch dest j.dest then
      if oif.isSome && oif ≠ some (ipv4.getNetDevice j.interface) then lookupLoop rest found
      else if masklen < found.longestMask then lookupLoop rest found
      else
        let shortestMetric := if found.longestMask < masklen then 0xffffffff else found.shortestMetric
        if shortestMetric < metric then
          lookupLoop rest { found with longestMask := masklen, shortestMetric := shortestMetric }
        else
          let taken : Lookup Device :=
            { rtentry := some (createRoute ipv4 j)
              longestMask := masklen
              shortestMetric := metric }
          if masklen = 32 then taken else lookupLoop rest taken
    else lookupLoop rest found

/-- `LookupStatic`. Local multicast goes out of the given device, and without one it is an assertion
that fails. -/
def lookupStatic [DecidableEq Device] (networkRoutes : Ipv4StaticRouting) : Option (Ipv4Route Device) :=
  if dest.isLocalMulticast then oif.map fun device => ⟨dest, ipv4.getAddress device, .any, device⟩
  else (lookupLoop ipv4 dest oif networkRoutes {}).rtentry

/-- The entry matches the destination and the device. -/
structure Matches (row : NetworkRoute) : Prop where
  network : row.route.destNetworkMask.isMatch dest row.route.dest = true
  device : ∀ device, oif = some device -> ipv4.getNetDevice row.route.interface = device

/-- The longest of the prefixes that match, and the smallest metric with it. -/
structure Best (rows : List NetworkRoute) (row : NetworkRoute) : Prop where
  member : row ∈ rows
  isMatch : Matches ipv4 dest oif row
  longest : ∀ other ∈ rows, Matches ipv4 dest oif other -> other.prefixLength ≤ row.prefixLength
  smallest : ∀ other ∈ rows, Matches ipv4 dest oif other -> other.prefixLength = row.prefixLength ->
    row.metric ≤ other.metric

variable {ipv4 dest oif} {rest done : List NetworkRoute} {row : NetworkRoute} {found : Lookup Device}

theorem metric_le (row : NetworkRoute) : row.metric ≤ 0xffffffff := by
  have small := row.metric.toNat_lt
  have greatest : (0xffffffff : UInt32).toNat = 2 ^ 32 - 1 := by decide
  rw [UInt32.le_iff_toNat_le]
  omega

/-- What is kept of an entry. -/
def Lookup.of (ipv4 : Ipv4Interfaces Device) (row : NetworkRoute) : Lookup Device where
  rtentry := some (createRoute ipv4 row.route)
  longestMask := row.prefixLength
  shortestMetric := row.metric

/-- What is kept after some entries, none of which is a host route that matches. -/
inductive Kept (ipv4 : Ipv4Interfaces Device) (dest : Ipv4Address) (oif : Option Device) (done : List NetworkRoute) :
    Lookup Device -> Prop where
  | nothing (noMatch : ∀ row ∈ done, ¬Matches ipv4 dest oif row) : Kept ipv4 dest oif done {}
  | best {row : NetworkRoute} (isBest : Best ipv4 dest oif done row) : Kept ipv4 dest oif done (.of ipv4 row)

theorem Best.append_of_not (best : Best ipv4 dest oif done row) {other : NetworkRoute}
    (notBetter : Matches ipv4 dest oif other ->
      other.prefixLength < row.prefixLength ∨ other.prefixLength = row.prefixLength ∧ row.metric ≤ other.metric) :
    Best ipv4 dest oif (done ++ [other]) row := by
  refine ⟨mem_append_left _ best.member, best.isMatch, fun third mem isMatch => ?_, fun third mem isMatch same => ?_⟩
  · obtain before | isLast := mem_append.mp mem
    · exact best.longest third before isMatch
    · obtain rfl := mem_singleton.mp isLast
      have := notBetter isMatch
      omega
  · obtain before | isLast := mem_append.mp mem
    · exact best.smallest third before isMatch same
    · obtain rfl := mem_singleton.mp isLast
      obtain shorter | ⟨-, less⟩ := notBetter isMatch
      · exact absurd same (Nat.ne_of_lt shorter)
      · exact less

/-- The best entry so far gives way to one that is better or as good. -/
theorem Kept.append_best (kept : Kept ipv4 dest oif done found) (isMatch : Matches ipv4 dest oif row)
    (better : found.longestMask < row.prefixLength ∨
      found.longestMask = row.prefixLength ∧ row.metric ≤ found.shortestMetric) :
    Best ipv4 dest oif (done ++ [row]) row := by
  refine ⟨mem_append_right _ (mem_singleton_self row), isMatch, fun other mem otherMatch => ?_,
    fun other mem otherMatch same => ?_⟩
  · obtain before | isLast := mem_append.mp mem
    · cases kept with
      | nothing noMatch => exact absurd otherMatch (noMatch other before)
      | best isBest =>
        have := isBest.longest other before otherMatch
        simp only [Lookup.of] at better
        omega
    · exact Nat.le_of_eq (congrArg _ (mem_singleton.mp isLast))
  · obtain before | isLast := mem_append.mp mem
    · cases kept with
      | nothing noMatch => exact absurd otherMatch (noMatch other before)
      | best isBest =>
        have longest := isBest.longest other before otherMatch
        simp only [Lookup.of] at better
        obtain longer | ⟨asLong, less⟩ := better
        · omega
        · exact UInt32.le_trans less (isBest.smallest other before otherMatch (same.trans asLong.symm))
    · rw [mem_singleton.mp isLast]
      exact UInt32.le_refl _

theorem Kept.append (kept : Kept ipv4 dest oif done found)
    (notBetter : Matches ipv4 dest oif row -> ¬(found.longestMask < row.prefixLength ∨
      found.longestMask = row.prefixLength ∧ row.metric ≤ found.shortestMetric)) :
    Kept ipv4 dest oif (done ++ [row]) found := by
  cases kept with
  | nothing noMatch =>
    refine .nothing fun other mem isMatch => ?_
    obtain before | isLast := mem_append.mp mem
    · exact noMatch other before isMatch
    · obtain rfl := mem_singleton.mp isLast
      apply notBetter isMatch
      by_cases none : other.prefixLength = 0
      · exact .inr ⟨none.symm, metric_le other⟩
      · exact .inl (Nat.pos_of_ne_zero none)
  | best isBest =>
    refine .best (isBest.append_of_not fun isMatch => ?_)
    have worse := notBetter isMatch
    simp only [not_or, not_and, UInt32.not_le] at worse
    obtain ⟨notLonger, notLess⟩ := worse
    obtain shorter | same := Nat.lt_or_eq_of_le (Nat.not_lt.mp notLonger)
    · exact .inl shorter
    · exact .inr ⟨same, UInt32.le_of_lt (notLess same.symm)⟩

variable [DecidableEq Device]

theorem matches_iff : Matches ipv4 dest oif row ↔ row.route.destNetworkMask.isMatch dest row.route.dest = true ∧
    ¬(oif.isSome && oif ≠ some (ipv4.getNetDevice row.route.interface)) = true := by
  have device : (∀ device, oif = some device -> ipv4.getNetDevice row.route.interface = device) ↔
      ¬(oif.isSome && oif ≠ some (ipv4.getNetDevice row.route.interface)) = true := by
    cases oif with
    | none => simp
    | some other =>
      rw [Option.isSome_some, Bool.true_and, decide_eq_true_eq, not_not, Option.some.injEq]
      exact ⟨fun same => (same other rfl).symm, fun same device isDevice => same.symm.trans (Option.some.inj isDevice)⟩
  rw [← device]
  exact ⟨fun isMatch => ⟨isMatch.network, isMatch.device⟩, fun both => ⟨both.1, both.2⟩⟩

theorem lookupLoop_cons_of_not (notMatches : ¬Matches ipv4 dest oif row) :
    lookupLoop ipv4 dest oif (row :: rest) found = lookupLoop ipv4 dest oif rest found := by
  rw [matches_iff, not_and_or, not_not] at notMatches
  rw [lookupLoop]
  obtain notNetwork | otherDevice := notMatches
  · rw [if_neg notNetwork]
  · rw [if_pos otherDevice, ite_self]

/-- The metric to compare with: a longer mask resets it. -/
def Lookup.metricFor (found : Lookup Device) (row : NetworkRoute) : UInt32 :=
  if found.longestMask < row.prefixLength then 0xffffffff else found.shortestMetric

/-- An entry that matches is taken if its mask is longer, or as long and its metric no greater. -/
theorem lookupLoop_cons_of_matches (isMatch : Matches ipv4 dest oif row) :
    lookupLoop ipv4 dest oif (row :: rest) found =
      if found.longestMask < row.prefixLength ∨
          found.longestMask = row.prefixLength ∧ row.metric ≤ found.shortestMetric then
        if row.prefixLength = 32 then .of ipv4 row else lookupLoop ipv4 dest oif rest (.of ipv4 row)
      else lookupLoop ipv4 dest oif rest found := by
  obtain ⟨network, device⟩ := matches_iff.mp isMatch
  have isLoop : lookupLoop ipv4 dest oif (row :: rest) found =
      if row.prefixLength < found.longestMask then lookupLoop ipv4 dest oif rest found
      else if found.metricFor row < row.metric then
        lookupLoop ipv4 dest oif rest
          { found with longestMask := row.prefixLength, shortestMetric := found.metricFor row }
      else if row.prefixLength = 32 then .of ipv4 row else lookupLoop ipv4 dest oif rest (.of ipv4 row) := by
    rw [lookupLoop, if_pos network, if_neg device]
    rfl
  rw [isLoop, Lookup.metricFor]
  obtain shorter | same | longer := Nat.lt_trichotomy row.prefixLength found.longestMask
  · rw [if_pos shorter, if_neg]
    omega
  · have asLong : ¬found.longestMask < row.prefixLength := Nat.not_lt_of_le (Nat.le_of_eq same)
    rw [if_neg (Nat.not_lt_of_le (Nat.le_of_eq same.symm)), if_neg asLong]
    by_cases greater : found.shortestMetric < row.metric
    · have notTaken : ¬(found.longestMask < row.prefixLength ∨
          found.longestMask = row.prefixLength ∧ row.metric ≤ found.shortestMetric) := by
        rw [not_or]
        exact ⟨asLong, fun both => absurd both.2 (UInt32.not_le.mpr greater)⟩
      rw [if_pos greater, if_neg notTaken, same]
    · have taken : found.longestMask < row.prefixLength ∨
          found.longestMask = row.prefixLength ∧ row.metric ≤ found.shortestMetric :=
        .inr ⟨same.symm, UInt32.not_lt.mp greater⟩
      rw [if_neg greater, if_pos taken]
  · have least : ¬(0xffffffff : UInt32) < row.metric := UInt32.not_lt.mpr (metric_le row)
    have taken : found.longestMask < row.prefixLength ∨
        found.longestMask = row.prefixLength ∧ row.metric ≤ found.shortestMetric := .inl longer
    rw [if_neg (Nat.not_lt_of_lt longer), if_pos longer, if_neg least, if_pos taken]

/-- A host route that matches ends the search. Without one the best entry is kept. -/
theorem lookupLoop_spec (kept : Kept ipv4 dest oif done found)
    (noHost : ∀ row ∈ done, Matches ipv4 dest oif row -> row.prefixLength ≠ 32) :
    (Kept ipv4 dest oif (done ++ rest) (lookupLoop ipv4 dest oif rest found) ∧
      ∀ row ∈ done ++ rest, Matches ipv4 dest oif row -> row.prefixLength ≠ 32) ∨
    ∃ before row after, done ++ rest = before ++ row :: after ∧ Matches ipv4 dest oif row ∧ row.prefixLength = 32 ∧
      (∀ other ∈ before, Matches ipv4 dest oif other -> other.prefixLength ≠ 32) ∧
        lookupLoop ipv4 dest oif rest found = .of ipv4 row := by
  induction rest generalizing done found with
  | nil =>
    rw [append_nil]
    exact .inl ⟨kept, noHost⟩
  | cons row rest ih =>
    have noHostNext : (Matches ipv4 dest oif row -> row.prefixLength ≠ 32) ->
        ∀ other ∈ done ++ [row], Matches ipv4 dest oif other -> other.prefixLength ≠ 32 := by
      intro notHost other mem
      obtain before | isLast := mem_append.mp mem
      · exact noHost other before
      · rw [mem_singleton.mp isLast]
        exact notHost
    rw [append_cons]
    by_cases isMatch : Matches ipv4 dest oif row
    · rw [lookupLoop_cons_of_matches isMatch]
      by_cases better : found.longestMask < row.prefixLength ∨
          found.longestMask = row.prefixLength ∧ row.metric ≤ found.shortestMetric
      · rw [if_pos better]
        by_cases host : row.prefixLength = 32
        · rw [if_pos host]
          exact .inr ⟨done, row, rest, (append_cons done row rest).symm, isMatch, host, noHost, rfl⟩
        · rw [if_neg host]
          exact ih (.best (kept.append_best isMatch better)) (noHostNext fun _ => host)
      · rw [if_neg better]
        have notHost : row.prefixLength ≠ 32 := by
          intro host
          apply better
          rw [host]
          cases kept with
          | nothing _ => exact .inl (Nat.succ_pos 31)
          | @best kept isBest =>
            have bound : kept.prefixLength ≤ 32 := kept.route.destNetworkMask.getPrefixLength_le
            exact .inl (Nat.lt_of_le_of_ne bound (noHost kept isBest.member isBest.isMatch))
        exact ih (kept.append fun _ => better) (noHostNext fun _ => notHost)
    · rw [lookupLoop_cons_of_not isMatch]
      exact ih (kept.append fun yes => absurd yes isMatch) (noHostNext fun yes => absurd yes isMatch)

variable (ipv4 dest oif)

/-- A route is found just if an entry matches, and it is that of the best one. -/
def SelectsBest (networkRoutes : Ipv4StaticRouting) : Prop :=
  ((lookupStatic ipv4 dest oif networkRoutes).isSome = true ↔ ∃ row ∈ networkRoutes, Matches ipv4 dest oif row) ∧
    ∀ route, lookupStatic ipv4 dest oif networkRoutes = some route ->
      ∃ row, Best ipv4 dest oif networkRoutes row ∧ route = createRoute ipv4 row.route

/-- A host route that matches. -/
def MatchesHost (row : NetworkRoute) : Prop :=
  Matches ipv4 dest oif row ∧ row.prefixLength = 32

/-- The first of the host routes that match, in the order of the table, gives the route of one of
those with the smallest metric. -/
def FirstHostBest (networkRoutes : Ipv4StaticRouting) : Prop :=
  ∀ before row after, networkRoutes = before ++ row :: after -> MatchesHost ipv4 dest oif row ->
    (∀ other ∈ before, ¬MatchesHost ipv4 dest oif other) -> ∃ best ∈ networkRoutes, MatchesHost ipv4 dest oif best ∧
        (∀ other ∈ networkRoutes, MatchesHost ipv4 dest oif other -> best.metric ≤ other.metric) ∧
          createRoute ipv4 best.route = createRoute ipv4 row.route

variable {ipv4 dest oif}

theorem first_unique {property : NetworkRoute -> Prop} {before after before' after' : List NetworkRoute}
    {row' : NetworkRoute} (same : before ++ row :: after = before' ++ row' :: after') (has : property row)
    (has' : property row') (first : ∀ other ∈ before, ¬property other) (first' : ∀ other ∈ before', ¬property other) :
    row = row' := by
  induction before generalizing before' with
  | nil =>
    cases before' with
    | nil => exact (cons.inj same).1
    | cons other before' => exact absurd ((cons.inj same).1 ▸ has) (first' other mem_cons_self)
  | cons other before ih =>
    cases before' with
    | nil => exact absurd ((cons.inj same).1 ▸ has') (first other mem_cons_self)
    | cons other' before' =>
      exact ih (cons.inj same).2 (fun third mem => first third (mem_cons_of_mem _ mem))
        fun third mem => first' third (mem_cons_of_mem _ mem)

theorem selectsBest_iff (notLocal : dest.isLocalMulticast = false) (networkRoutes : Ipv4StaticRouting) :
    SelectsBest ipv4 dest oif networkRoutes ↔ FirstHostBest ipv4 dest oif networkRoutes := by
  have isLookup : lookupStatic ipv4 dest oif networkRoutes = (lookupLoop ipv4 dest oif networkRoutes {}).rtentry := by
    rw [lookupStatic, notLocal]
    rfl
  have bound : ∀ row : NetworkRoute, row.prefixLength ≤ 32 := fun row => row.route.destNetworkMask.getPrefixLength_le
  have start : Kept ipv4 dest oif [] {} := .nothing fun row mem => nomatch mem
  obtain ⟨kept, noHost⟩ | ⟨before, row, after, isTable, isMatch, host, noEarlier, isFound⟩ :=
    @lookupLoop_spec Device ipv4 dest oif networkRoutes [] {} _ start fun row mem => nomatch mem
  · have ordered : FirstHostBest ipv4 dest oif networkRoutes := by
      rintro before row after rfl ⟨isMatch, host⟩
      exact absurd host (noHost row (by simp) isMatch)
    refine iff_of_true ?_ ordered
    rw [SelectsBest, isLookup]
    generalize lookupLoop ipv4 dest oif networkRoutes {} = found at kept
    cases kept with
    | nothing noMatch =>
      refine ⟨iff_of_false (by simp) fun ⟨row, mem, isMatch⟩ => noMatch row mem isMatch, fun route isRoute => ?_⟩
      cases isRoute
    | best isBest =>
      refine ⟨iff_of_true rfl ⟨_, isBest.member, isBest.isMatch⟩, fun route isRoute => ?_⟩
      exact ⟨_, isBest, (Option.some.inj isRoute).symm⟩
  · rw [nil_append] at isTable
    have mem : row ∈ networkRoutes := by
      rw [isTable]
      simp
    rw [SelectsBest, isLookup, isFound]
    constructor
    · rintro ⟨-, selected⟩ before' row' after' isTable' isHost noEarlier'
      have sameRow : row = row' :=
        first_unique (isTable.symm.trans isTable') ⟨isMatch, host⟩ isHost
          (fun other isBefore isHost => noEarlier other isBefore isHost.1 isHost.2) noEarlier'
      subst sameRow
      obtain ⟨best, isBest, same⟩ := selected _ rfl
      have bestHost : best.prefixLength = 32 :=
        Nat.le_antisymm (bound best) (host ▸ isBest.longest row mem isMatch)
      refine ⟨best, isBest.member, ⟨isBest.isMatch, bestHost⟩, fun other isListed isHost => ?_, same.symm⟩
      exact isBest.smallest other isListed isHost.1 (isHost.2.trans bestHost.symm)
    · intro ordered
      obtain ⟨best, listed, ⟨bestMatch, bestHost⟩, smallest, same⟩ :=
        ordered before row after isTable ⟨isMatch, host⟩ fun other isBefore isHost =>
          noEarlier other isBefore isHost.1 isHost.2
      refine ⟨iff_of_true rfl ⟨row, mem, isMatch⟩, fun route isRoute => ⟨best, ⟨listed, bestMatch, ?_, ?_⟩, ?_⟩⟩
      · intro other _ _
        rw [bestHost]
        exact bound other
      · intro other isListed otherMatch sameLength
        exact smallest other isListed ⟨otherMatch, sameLength.trans bestHost⟩
      · exact (Option.some.inj isRoute).symm.trans same.symm

end Lookup

/-- In every table that is built, whatever it is asked for, the best route is selected just if the
first host route that matches is as good as the best. -/
theorem built_selectsBest_iff {Device : Type} [DecidableEq Device] (ipv4 : Ipv4Interfaces Device) (calls : List Call)
    (dest : Ipv4Address) (oif : Option Device) (notLocal : dest.isLocalMulticast = false) :
    SelectsBest ipv4 dest oif (built calls) ↔ FirstHostBest ipv4 dest oif (built calls) :=
  selectsBest_iff notLocal (built calls)

/-- A node with two interfaces, each its own device. -/
def twoInterfaces : Ipv4Interfaces UInt32 where
  getNetDevice := id
  sourceAddressSelection _ _ := ⟨0x0a000001⟩
  getAddress _ := ⟨0x0a000001⟩

/-- Two routes to `10.1.1.5`, the one with the greater metric first. -/
def costlyFirst : List Call :=
  [.host ⟨0x0a010105⟩ ⟨0x0a000002⟩ 1 5, .host ⟨0x0a010105⟩ ⟨0x0a000003⟩ 2 1]

/-- The route with metric 5 is selected. -/
theorem costlyFirst_not_best :
    (lookupStatic twoInterfaces ⟨0x0a010105⟩ none (built costlyFirst)).map Ipv4Route.gateway = some ⟨0x0a000002⟩ ∧
      ¬SelectsBest twoInterfaces ⟨0x0a010105⟩ none (built costlyFirst) := by
  have selected : (lookupStatic twoInterfaces ⟨0x0a010105⟩ none (built costlyFirst)).map Ipv4Route.gateway =
      some ⟨0x0a000002⟩ := by
    decide +kernel
  refine ⟨selected, ?_⟩
  rintro ⟨-, best⟩
  obtain ⟨route, isRoute, isGateway⟩ := Option.map_eq_some_iff.mp selected
  obtain ⟨row, isBest, rfl⟩ := best route isRoute
  have cheap : Matches twoInterfaces ⟨0x0a010105⟩ none ⟨⟨⟨0x0a010105⟩, .ones, ⟨0x0a000003⟩, 2⟩, 1⟩ :=
    ⟨by decide, fun device isDevice => by cases isDevice⟩
  have member := isBest.member
  have smallest := isBest.smallest
  obtain rfl | isLast := mem_cons.mp member
  · exact absurd (smallest _ (mem_cons_of_mem _ (mem_singleton_self _)) cheap (by decide)) (by decide)
  · obtain rfl := mem_singleton.mp isLast
    exact absurd isGateway (by decide)

/-- The other way around the first one is the best one. -/
theorem cheapFirst_best : SelectsBest twoInterfaces ⟨0x0a010105⟩ none (built costlyFirst.reverse) := by
  apply (built_selectsBest_iff twoInterfaces costlyFirst.reverse ⟨0x0a010105⟩ none (by decide)).mpr
  have isHost : MatchesHost twoInterfaces ⟨0x0a010105⟩ none ⟨⟨⟨0x0a010105⟩, .ones, ⟨0x0a000003⟩, 2⟩, 1⟩ :=
    ⟨⟨by decide, fun device isDevice => by cases isDevice⟩, by decide⟩
  intro before row after split _ noEarlier
  cases before with
  | nil =>
    obtain ⟨rfl, -⟩ := List.cons.inj split
    refine ⟨_, mem_cons_self, isHost, fun other member _ => ?_, rfl⟩
    obtain rfl | isLast := mem_cons.mp member
    · exact UInt32.le_refl _
    · obtain rfl := mem_singleton.mp isLast
      decide
  | cons other before =>
    obtain ⟨rfl, -⟩ := List.cons.inj split
    exact absurd isHost (noEarlier _ mem_cons_self)

end Ipv4StaticRouting

end Ns3.Internet
