import Ns3.Internet.Rip.RoutingTable
import Ns3.Semantics.Loop

/-!
# The events of routing table entries

The entries of a well kept table have a metric that fits their status and one pending event that
fits it too, unless the entry is that of an own network, never touched. All actions of careful runs
keep it so: `runs_sound`. A response that meets an invalid entry with the metric it has anyway does
not, nor does an interface that takes down invalid entries.
-/

namespace Ns3.Internet

open Ns3.Network Ns3.Semantics List Option Nat EventQueue RipRoutingTableEntry

namespace RipRoutingTableEntry

variable (route : RipRoutingTableEntry) (status : RouteStatus) (metric : Nat) (now : Int)

@[simp] theorem setRouteStatus_status : (route.setRouteStatus status now).status = status := by
  rw [setRouteStatus]
  split
  · rfl
  next same => exact Decidable.not_not.mp same

@[simp] theorem setRouteStatus_id : (route.setRouteStatus status now).id = route.id := by
  rw [setRouteStatus]
  split <;> rfl

@[simp] theorem setRouteStatus_metric : (route.setRouteStatus status now).metric = route.metric := by
  rw [setRouteStatus]
  split <;> rfl

@[simp] theorem setRouteStatus_gateway : (route.setRouteStatus status now).gateway = route.gateway := by
  rw [setRouteStatus]
  split <;> rfl

@[simp] theorem setRouteMetric_status : (route.setRouteMetric metric).status = route.status :=
  rfl

@[simp] theorem setRouteMetric_id : (route.setRouteMetric metric).id = route.id :=
  rfl

@[simp] theorem setRouteMetric_metric : (route.setRouteMetric metric).metric = metric % 2 ^ 8 :=
  rfl

@[simp] theorem setRouteMetric_gateway : (route.setRouteMetric metric).gateway = route.gateway :=
  rfl

/-- What the event of an entry does. -/
def expiry (route : RipRoutingTableEntry) : Expiry :=
  match route.status with
  | .valid => .invalidateRoute route.id
  | .invalid => .deleteRoute route.id

theorem expiry_route (route : RipRoutingTableEntry) : route.expiry.route = route.id := by
  rw [expiry]
  cases route.status <;> rfl

end RipRoutingTableEntry

namespace Rip

variable (config : RipConfig)

/-- The metric of an entry that is not valid is the link-down metric. -/
def MetricFits (route : RipRoutingTableEntry) : Prop :=
  match route.status with
  | .valid => route.metric < config.linkDown
  | .invalid => route.metric = config.linkDown

/-- The event of an entry is pending. That of an invalid one is due some time after it became so. -/
def Armed (queue : EventQueue Expiry) (slot : RouteSlot) : Prop :=
  (slot.2 = 0 ∧ slot.1.status = .valid ∧ slot.1.gateway = .any) ∨
    ∃ event ∈ queue.entries, event.uid = slot.2 ∧ event.callback = slot.1.expiry ∧
      (slot.1.status = .invalid -> event.ts = slot.1.statusSince + config.garbageCollectionDelay)

/-- Entries and events that belong together. -/
structure WellKept (routes : List RouteSlot) (queue : EventQueue Expiry) (allocated : Nat) : Prop where
  distinct : routes.Pairwise fun first second => first.1.id ≠ second.1.id
  made : ∀ slot ∈ routes, slot.1.id < allocated
  metric : ∀ slot ∈ routes, MetricFits config slot.1
  armed : ∀ slot ∈ routes, Armed config queue slot
  owned : ∀ event ∈ queue.entries, ∃ slot ∈ routes, slot.2 = event.uid ∧ event.callback = slot.1.expiry

variable {config} {routes before after : List RouteSlot} {slot : RouteSlot} {queue : EventQueue Expiry}
  {route : RipRoutingTableEntry} {allocated : Nat}

namespace WellKept

theorem eq_of_id {other : RouteSlot} (kept : WellKept config routes queue allocated) (isSlot : slot ∈ routes)
    (isOther : other ∈ routes) (same : slot.1.id = other.1.id) : slot = other := by
  have ids : (routes.map fun slot => slot.1.id).Nodup := pairwise_map.mpr kept.distinct
  exact inj_on_of_nodup_map ids isSlot isOther same

theorem others_differ (kept : WellKept config (before ++ slot :: after) queue allocated) :
    ∀ other ∈ before ++ after, other.1.id ≠ slot.1.id := by
  obtain ⟨-, second, across⟩ := pairwise_append.mp kept.distinct
  intro other mem
  rcases mem_append.mp mem with isBefore | isAfter
  · exact across other isBefore slot mem_cons_self
  · exact ((pairwise_cons.mp second).1 other isAfter).symm

/-- Without an entry and its event, the others belong together. -/
theorem drop {rest : EventQueue Expiry} (kept : WellKept config (before ++ slot :: after) queue allocated)
    (others : ∀ event, event ∈ rest.entries ↔ event ∈ queue.entries ∧ event.uid ≠ slot.2) :
    WellKept config (before ++ after) rest allocated := by
  have within : ∀ other ∈ before ++ after, other ∈ before ++ slot :: after := by
    intro other mem
    rcases mem_append.mp mem with first | second
    · exact mem_append_left _ first
    · exact mem_append_right _ (mem_cons_of_mem _ second)
  have isSlot : slot ∈ before ++ slot :: after := mem_append_right _ mem_cons_self
  have sublist : (before ++ after).Sublist (before ++ slot :: after) :=
    List.Sublist.append (List.Sublist.refl before) (sublist_cons_self slot after)
  refine ⟨kept.distinct.sublist sublist, fun other mem => kept.made other (within other mem),
    fun other mem => kept.metric other (within other mem), fun other mem => ?_, fun event mem => ?_⟩
  · rcases kept.armed other (within other mem) with untouched | ⟨event, isEvent, uid, callback, due⟩
    · exact .inl untouched
    · refine .inr ⟨event, (others event).mpr ⟨isEvent, fun same => ?_⟩, uid, callback, due⟩
      -- The event of the entry that is gone belongs to that one only.
      have ids : ∀ holder : RouteSlot, event.callback = holder.1.expiry -> event.callback.route = holder.1.id :=
        fun holder callback => callback ▸ holder.1.expiry_route
      rcases kept.armed slot isSlot with ⟨none, -⟩ | ⟨its, isIts, itsUid, itsCallback, -⟩
      · have pos := (queue.issued event isEvent).1
        rw [same, none] at pos
        exact lt_irrefl _ pos
      · obtain rfl := eq_of_uid isIts isEvent (itsUid.trans same.symm)
        exact kept.others_differ other mem ((ids other callback).symm.trans (ids slot itsCallback))
  · obtain ⟨isEvent, ne⟩ := (others event).mp mem
    obtain ⟨owner, isOwner, uid, callback⟩ := kept.owned event isEvent
    refine ⟨owner, ?_, uid, callback⟩
    rcases mem_append.mp isOwner with first | second
    · exact mem_append_left _ first
    · rcases mem_cons.mp second with rfl | later
      · exact absurd uid.symm ne
      · exact mem_append_right _ later

theorem mem_insert {other : RouteSlot} :
    other ∈ before ++ slot :: after ↔ other = slot ∨ other ∈ before ++ after := by
  simp only [mem_append, mem_cons]
  constructor
  · rintro (first | here | second)
    · exact .inr (.inl first)
    · exact .inl here
    · exact .inr (.inr second)
  · rintro (here | first | second)
    · exact .inr (.inl here)
    · exact .inl first
    · exact .inr (.inr second)

section

variable (kept : WellKept config (before ++ after) queue allocated)
include kept

theorem distinct_insert
    (ne : ∀ other ∈ before ++ after, other.1.id ≠ slot.1.id) :
    (before ++ slot :: after).Pairwise fun first second => first.1.id ≠ second.1.id := by
  obtain ⟨first, second, across⟩ := pairwise_append.mp kept.distinct
  refine pairwise_append.mpr ⟨first, pairwise_cons.mpr ⟨fun other mem => ?_, second⟩, ?_⟩
  · exact (ne other (mem_append_right _ mem)).symm
  · intro other mem next isNext
    rcases mem_cons.mp isNext with rfl | later
    · exact ne other (mem_append_left _ mem)
    · exact across other mem next later

theorem insert {delay more : Nat}
    (ne : ∀ other ∈ before ++ after, other.1.id ≠ route.id) (grows : allocated ≤ more) (made : route.id < more)
    (metric : MetricFits config route)
    (due : route.status = .invalid -> queue.now + delay = route.statusSince + config.garbageCollectionDelay) :
    WellKept config (before ++ (route, (queue.schedule delay route.expiry).2) :: after)
      (queue.schedule delay route.expiry).1 more := by
  refine ⟨kept.distinct_insert ne, fun other mem => ?_, fun other mem => ?_, fun other mem => ?_, fun event mem => ?_⟩
  · rcases mem_insert.mp mem with rfl | old
    · exact made
    · exact lt_of_lt_of_le (kept.made other old) grows
  · rcases mem_insert.mp mem with rfl | old
    · exact metric
    · exact kept.metric other old
  · rcases mem_insert.mp mem with rfl | old
    · exact .inr ⟨_, mem_schedule.mpr (.inr rfl), rfl, rfl, due⟩
    · rcases kept.armed other old with untouched | ⟨event, isEvent, its⟩
      · exact .inl untouched
      · exact .inr ⟨event, mem_schedule.mpr (.inl isEvent), its⟩
  · rcases mem_schedule.mp mem with old | rfl
    · obtain ⟨owner, isOwner, its⟩ := kept.owned event old
      exact ⟨owner, mem_insert.mpr (.inr isOwner), its⟩
    · exact ⟨_, mem_insert.mpr (.inl rfl), rfl, rfl⟩

theorem insert_untouched {more : Nat}
    (ne : ∀ other ∈ before ++ after, other.1.id ≠ route.id) (grows : allocated ≤ more) (made : route.id < more)
    (metric : MetricFits config route) (valid : route.status = .valid) (own : route.gateway = .any) :
    WellKept config (before ++ (route, 0) :: after) queue more := by
  refine ⟨kept.distinct_insert ne, fun other mem => ?_, fun other mem => ?_, fun other mem => ?_, fun event mem => ?_⟩
  · rcases mem_insert.mp mem with rfl | old
    · exact made
    · exact lt_of_lt_of_le (kept.made other old) grows
  · rcases mem_insert.mp mem with rfl | old
    · exact metric
    · exact kept.metric other old
  · rcases mem_insert.mp mem with rfl | old
    · exact .inl ⟨rfl, valid, own⟩
    · exact kept.armed other old
  · obtain ⟨owner, isOwner, its⟩ := kept.owned event mem
    exact ⟨owner, mem_insert.mpr (.inr isOwner), its⟩

end

theorem of_entries {other : EventQueue Expiry} (kept : WellKept config routes queue allocated)
    (same : other.entries = queue.entries) : WellKept config routes other allocated := by
  refine ⟨kept.distinct, kept.made, kept.metric, ?_, ?_⟩
  · unfold Armed
    rw [same]
    exact kept.armed
  · rw [same]
    exact kept.owned

theorem sole (kept : WellKept config routes queue allocated) (isSlot : slot ∈ routes) {event : Entry Expiry}
    (isEvent : event ∈ queue.entries) (uid : event.uid = slot.2) :
    ∀ other ∈ queue.entries, other.callback.route = slot.1.id -> other = event := by
  intro other isOther same
  obtain ⟨owner, isOwner, ownerUid, callback⟩ := kept.owned other isOther
  rw [callback, expiry_route] at same
  obtain rfl := kept.eq_of_id isOwner isSlot same
  exact eq_of_uid isOther isEvent (ownerUid.symm.trans uid.symm)

end WellKept

/-! ## Places in the table -/

variable {rip next : Rip} {index : Nat}

theorem split_at (isSlot : routes[index]? = some slot) :
    ∃ before after, routes = before ++ slot :: after ∧ (∀ new, routes.set index new = before ++ new :: after) ∧
      routes.eraseIdx index = before ++ after := by
  obtain ⟨bound, read⟩ := List.getElem?_eq_some_iff.mp isSlot
  have whole := (take_append_drop index routes).symm
  rw [drop_eq_getElem_cons bound, read] at whole
  refine ⟨routes.take index, routes.drop (index + 1), whole, fun new => ?_, ?_⟩
  · rw [set_eq_take_append_cons_drop, if_pos bound]
  · rw [eraseIdx_eq_take_drop_succ]

/-- The entries of a router belong together with its events. -/
def Kept (config : RipConfig) (rip : Rip) : Prop :=
  WellKept config rip.routes rip.queue rip.allocated

variable {delay event : Nat}

/-- An entry takes the place of another one. -/
theorem Kept.rearm {expiry : Nat -> Expiry} {found : EventQueue Expiry} (more : Nat)
    (kept : Kept config rip) (isSlot : rip.routes[index]? = some slot) (grows : rip.allocated ≤ more)
    (others : ∀ event, event ∈ (found.cancel slot.2).entries ↔ event ∈ rip.queue.entries ∧ event.uid ≠ slot.2)
    (itself : route.id = slot.1.id ∨ route.id = rip.allocated ∧ rip.allocated < more) (metric : MetricFits config route)
    (does : expiry route.id = route.expiry)
    (due : route.status = .invalid -> found.now + delay = route.statusSince + config.garbageCollectionDelay) :
    Kept config ({ rip with allocated := more, queue := found }.rearm index route slot.2 delay expiry) := by
  obtain ⟨before, after, whole, set, -⟩ := split_at isSlot
  have whole' : WellKept config (before ++ slot :: after) rip.queue rip.allocated := whole ▸ kept
  have dropped := whole'.drop others
  have isIn : slot ∈ before ++ slot :: after := mem_append_right _ mem_cons_self
  have ne : ∀ other ∈ before ++ after, other.1.id ≠ route.id := by
    intro other mem same
    rcases itself with old | ⟨new, -⟩
    · exact whole'.others_differ other mem (same.trans old)
    · have bound := dropped.made other mem
      rw [same, new] at bound
      exact lt_irrefl _ bound
  have made : route.id < more := by
    rcases itself with old | ⟨new, less⟩
    · rw [old]
      exact lt_of_lt_of_le (whole'.made slot isIn) grows
    · rw [new]
      exact less
  rw [Rip.rearm]
  simp only [set, does]
  exact dropped.insert ne grows made metric due

/-- An entry that keeps its id, or is a new one. -/
theorem mem_rearm {expiry : Nat -> Expiry} {other : RouteSlot} (isSlot : rip.routes[index]? = some slot)
    (isOther : other ∈ rip.routes) (ne : other ≠ slot) :
    other ∈ (rip.rearm index route event delay expiry).routes := by
  obtain ⟨before, after, whole, set, -⟩ := split_at isSlot
  rw [whole] at isOther
  rw [Rip.rearm]
  simp only [set]
  rcases WellKept.mem_insert.mp isOther with same | old
  · exact absurd same ne
  · exact WellKept.mem_insert.mpr (.inr old)

theorem mem_of_mem_rearm {expiry : Nat -> Expiry} {other : RouteSlot}
    (isSlot : rip.routes[index]? = some slot) (isOther : other ∈ (rip.rearm index route event delay expiry).routes) :
    other = (route, ((rip.queue.cancel event).schedule delay (expiry route.id)).2) ∨ other ∈ rip.routes := by
  obtain ⟨before, after, whole, set, -⟩ := split_at isSlot
  rw [Rip.rearm] at isOther
  simp only [set] at isOther
  rw [whole]
  rcases WellKept.mem_insert.mp isOther with new | old
  · exact .inl new
  · exact .inr (WellKept.mem_insert.mpr (.inr old))

theorem mem_rearm_self {expiry : Nat -> Expiry} (isSlot : rip.routes[index]? = some slot) :
    route ∈ ((rip.rearm index route event delay expiry).routes.map Prod.fst) := by
  obtain ⟨before, after, -, set, -⟩ := split_at isSlot
  rw [Rip.rearm]
  simp only [set]
  exact mem_map_of_mem (f := Prod.fst) (WellKept.mem_insert.mpr (.inl rfl))

theorem find_route (kept : Kept config rip) (isSlot : rip.routes[index]? = some slot) :
    (rip.routes.findIdx? fun other => other.1.id = slot.1.id) = some index := by
  obtain ⟨bound, read⟩ := List.getElem?_eq_some_iff.mp isSlot
  refine findIdx?_eq_some_iff_getElem.mpr ⟨bound, by simp [read], fun earlier less => ?_⟩
  have ids := pairwise_iff_getElem.mp kept.distinct earlier index (by omega) bound less
  rw [read] at ids
  simpa using ids

theorem invalidateRoute_eq {found : EventQueue Expiry} (kept : Kept config rip)
    (isSlot : rip.routes[index]? = some slot) :
    invalidateRoute config { rip with queue := found } slot.1.id = some ({ rip with queue := found }.rearm index
        ((slot.1.setRouteStatus .invalid found.now).setRouteMetric config.linkDown) slot.2
        config.garbageCollectionDelay .deleteRoute) := by
  rw [invalidateRoute, find_route kept isSlot, bind_some, isSlot]
  rfl

/-- The entries of a router. -/
def entries (rip : Rip) : List RipRoutingTableEntry :=
  rip.routes.map Prod.fst

/-- The table after something has happened: entries and events belong together, no time has passed,
and an invalid entry stays as it is unless it is excused. -/
structure Later (config : RipConfig) (Excused : RipRoutingTableEntry -> Prop) (rip next : Rip) : Prop where
  kept : Kept config next
  now : next.queue.now = rip.queue.now
  lasts : ∀ route ∈ rip.entries, route.status = .invalid -> route ∈ next.entries ∨ Excused route

variable {Excused : RipRoutingTableEntry -> Prop}

theorem Later.refl (kept : Kept config rip) : Later config Excused rip rip :=
  ⟨kept, rfl, fun _ mem _ => .inl mem⟩

theorem Later.trans {final : Rip} (first : Later config Excused rip next) (second : Later config Excused next final) :
    Later config Excused rip final := by
  refine ⟨second.kept, second.now.trans first.now, fun route mem invalid => ?_⟩
  rcases first.lasts route mem invalid with still | revived
  · exact second.lasts route still invalid
  · exact .inr revived

theorem Kept.later_rearm {expiry : Nat -> Expiry} (more : Nat) (kept : Kept config rip)
    (isSlot : rip.routes[index]? = some slot) (grows : rip.allocated ≤ more)
    (itself : route.id = slot.1.id ∨ route.id = rip.allocated ∧ rip.allocated < more) (metric : MetricFits config route)
    (does : expiry route.id = route.expiry)
    (due : route.status = .invalid -> rip.queue.now + delay = route.statusSince + config.garbageCollectionDelay)
    (invalid : slot.1.status = .invalid -> route = slot.1 ∨ Excused slot.1) :
    Later config Excused rip ({ rip with allocated := more }.rearm index route slot.2 delay expiry) := by
  refine ⟨kept.rearm more isSlot grows (fun _ => mem_cancel) itself metric does due, rfl, fun other mem isInvalid => ?_⟩
  obtain ⟨place, isPlace, rfl⟩ := mem_map.mp mem
  by_cases same : place = slot
  · subst same
    rcases invalid isInvalid with unchanged | revived
    · rw [← unchanged]
      exact .inl (mem_rearm_self isSlot)
    · exact .inr revived
  · exact .inl (mem_map_of_mem (mem_rearm isSlot isPlace same))

/-! ## Entries that become invalid -/

theorem metricFits_invalid {now : Int} :
    MetricFits config ((route.setRouteStatus .invalid now).setRouteMetric config.linkDown) := by
  rw [MetricFits]
  simp only [setRouteMetric_status, setRouteStatus_status]
  exact mod_eq_of_lt config.linkDown_lt

theorem invalidate_of_invalid {now : Int} (fits : MetricFits config route) (invalid : route.status = .invalid) :
    (route.setRouteStatus .invalid now).setRouteMetric config.linkDown = route := by
  rw [MetricFits, invalid] at fits
  have metric : route.metric = config.linkDown := fits
  have unchanged : route.setRouteStatus .invalid now = route := by
    rw [setRouteStatus, if_neg (fun differs => differs invalid)]
  rw [unchanged, setRouteMetric, mod_eq_of_lt config.linkDown_lt, ← metric]

theorem Kept.later_invalidate (kept : Kept config rip) (isSlot : rip.routes[index]? = some slot)
    (recent : slot.1.status = .invalid -> slot.1.statusSince = rip.queue.now) :
    Later config Excused rip (rip.rearm index
      ((slot.1.setRouteStatus .invalid rip.queue.now).setRouteMetric config.linkDown) slot.2
      config.garbageCollectionDelay .deleteRoute) := by
  have fits := kept.metric slot (mem_of_getElem? isSlot)
  apply kept.later_rearm rip.allocated isSlot (le_refl _)
  · exact .inl (by simp)
  · exact metricFits_invalid
  · simp [expiry]
  · intro _
    by_cases already : slot.1.status = .invalid
    · rw [invalidate_of_invalid fits already, recent already]
    · rw [setRouteStatus, if_pos already]
      rfl
  · intro already
    exact .inl (invalidate_of_invalid fits already)

/-! ## Responses -/

variable {rte : RipRte} {rtes : List RipRte} {senderAddress : Ipv4Address} {incomingInterface : Nat}

/-- A route of a response with a finite metric is for the network of an entry. -/
def Revives (config : RipConfig) (rte : RipRte) (incomingInterface : Nat) (route : RipRoutingTableEntry) : Prop :=
  rteMetric config rte incomingInterface < config.linkDown ∧ matchesRte rte route = true

/-- If a route with the link-down metric meets an invalid entry, it is not from the gateway, and less
than half of the timeout has gone by. -/
def Spares (config : RipConfig) (rte : RipRte) (senderAddress : Ipv4Address) (incomingInterface : Nat) (rip : Rip)
    (index : Nat) : Prop :=
  ∀ slot, rip.routes[index]? = some slot -> matchesRte rte slot.1 = true -> slot.1.status = .invalid ->
    rteMetric config rte incomingInterface = config.linkDown ->
      senderAddress ≠ slot.1.gateway ∧ ¬ rip.getDelayLeft slot.2 < config.timeoutDelay / 2

theorem rteMetric_le : rteMetric config rte incomingInterface ≤ config.linkDown :=
  min_le_right _ _

theorem metricFits_valid {metric : Nat} {now : Int} (finite : metric < config.linkDown) :
    MetricFits config ((route.setRouteMetric metric).setRouteStatus .valid now) := by
  rw [MetricFits]
  simp only [setRouteStatus_status, setRouteStatus_metric]
  exact lt_of_le_of_lt (mod_le _ _) finite

theorem Kept.later_valid {metric : Nat} (more : Nat) (kept : Kept config rip)
    (isSlot : rip.routes[index]? = some slot) (grows : rip.allocated ≤ more)
    (itself : route.id = slot.1.id ∨ route.id = rip.allocated ∧ rip.allocated < more)
    (finite : metric < config.linkDown)
    (revived : slot.1.status = .invalid -> Excused slot.1) :
    Later config Excused rip ({ rip with allocated := more }.rearm index
      ((route.setRouteMetric metric).setRouteStatus .valid rip.queue.now) slot.2 config.timeoutDelay
      .invalidateRoute) := by
  apply kept.later_rearm more isSlot grows
  · simpa using itself
  · exact metricFits_valid finite
  · simp [expiry]
  · intro invalid
    simp at invalid
  · exact fun invalid => .inr (revived invalid)

theorem later_updateRoute (kept : Kept config rip)
    (spares : Spares config rte senderAddress incomingInterface rip index) :
    ∃ next, updateRoute config rte senderAddress incomingInterface rip index = some next ∧
      Later config (Revives config rte incomingInterface) rip next := by
  have atMost := @rteMetric_le config rte incomingInterface
  rw [updateRoute]
  cases isSlot : rip.routes[index]? with
  | none => exact ⟨rip, rfl, .refl kept⟩
  | some slot =>
    obtain ⟨it, event⟩ := slot
    have fits : MetricFits config it := kept.metric _ (mem_of_getElem? isSlot)
    simp only
    by_cases isMatch : matchesRte rte it = true
    · have dead : it.status = .invalid -> it.metric = config.linkDown := by
        intro invalid
        rw [MetricFits, invalid] at fits
        exact fits
      have alive : it.status ≠ .invalid -> it.metric < config.linkDown := by
        intro valid
        cases status : it.status with
        | invalid => exact absurd status valid
        | valid =>
          rw [MetricFits, status] at fits
          exact fits
      rw [if_pos isMatch]
      split
      next less =>
        -- A better metric.
        have finite : rteMetric config rte incomingInterface < config.linkDown := by
          by_cases invalid : it.status = .invalid
          · rw [← dead invalid]
            exact less
          · exact lt_trans less (alive invalid)
        refine ⟨_, rfl, ?_⟩
        split
        · apply kept.later_valid (rip.allocated + 1) isSlot (le_succ _) (.inr ⟨rfl, lt_succ_self _⟩) finite
          exact fun _ => ⟨finite, isMatch⟩
        · apply kept.later_valid rip.allocated isSlot (le_refl _) (.inl rfl) finite
          exact fun _ => ⟨finite, isMatch⟩
      next notLess =>
        split
        next same =>
          -- The same metric, which an invalid entry must not meet.
          split
          next isGateway =>
            have valid : it.status = .valid := by
              cases status : it.status with
              | valid => rfl
              | invalid => exact absurd isGateway (spares _ isSlot isMatch status (same.trans (dead status))).1
            refine ⟨_, rfl, ?_⟩
            apply kept.later_rearm rip.allocated isSlot (le_refl _) (.inl rfl) fits
            · simp [expiry, valid]
            · simp [valid]
            · exact fun _ => .inl rfl
          next isOther =>
            split
            next late =>
              have valid : it.status ≠ .invalid := fun status =>
                (spares _ isSlot isMatch status (same.trans (dead status))).2 late
              refine ⟨_, rfl, ?_⟩
              apply kept.later_valid (rip.allocated + 1) isSlot (le_succ _) (.inr ⟨rfl, lt_succ_self _⟩)
                (same ▸ alive valid)
              exact fun invalid => absurd invalid valid
            next early => exact ⟨rip, rfl, .refl kept⟩
        next differ =>
          -- A worse metric, so the entry is valid.
          have valid : it.status ≠ .invalid := by
            intro invalid
            have metric := dead invalid
            omega
          split
          next isGateway =>
            split
            next finite =>
              refine ⟨_, rfl, ?_⟩
              apply kept.later_valid rip.allocated isSlot (le_refl _) (.inl rfl) finite
              exact fun invalid => absurd invalid valid
            next infinite =>
              have again : (rip.queue.cancel event).cancel event = rip.queue.cancel event :=
                cancel_of_not_pending isPending_cancel_self
              have invalidated := @Kept.later_invalidate config _ rip index (Revives config rte incomingInterface) kept
                isSlot (fun invalid => absurd invalid valid)
              refine ⟨_, invalidateRoute_eq kept isSlot, ?_⟩
              simpa only [Rip.rearm, again, now_cancel] using invalidated
          next isOther => exact ⟨rip, rfl, .refl kept⟩
    · rw [if_neg isMatch]
      exact ⟨rip, rfl, .refl kept⟩

theorem later_learnRoute (kept : Kept config rip)
    (finite : rteMetric config rte incomingInterface < config.linkDown) :
    Later config Excused rip (rip.learnRoute config rte senderAddress incomingInterface) := by
  have nothing : WellKept config ([] ++ rip.routes) rip.queue rip.allocated := kept
  have added : ∀ route : RipRoutingTableEntry, route.id = rip.allocated -> route.status = .valid ->
      MetricFits config route ->
      WellKept config ((route, (rip.queue.schedule config.timeoutDelay (.invalidateRoute route.id)).2) :: rip.routes)
        (rip.queue.schedule config.timeoutDelay (.invalidateRoute route.id)).1 (rip.allocated + 1) := by
    intro route itself valid fits
    have does : Expiry.invalidateRoute route.id = route.expiry := by simp [expiry, valid]
    rw [does]
    apply nothing.insert
    · intro other mem
      rw [itself]
      exact Nat.ne_of_lt (kept.made other mem)
    · exact Nat.le_succ _
    · rw [itself]
      exact Nat.lt_succ_self _
    · exact fits
    · simp [valid]
  refine ⟨?_, rfl, fun route mem _ => .inl (mem_cons_of_mem _ mem)⟩
  exact added _ (by simp [newRoute, make]) (by simp) (metricFits_valid finite)

/-- Each entry that a route of a response meets is spared. -/
def SparesAll (config : RipConfig) (senderAddress : Ipv4Address) (incomingInterface : Nat) (rip : Rip) (rte : RipRte) :
    Prop :=
  Along (Spares config rte senderAddress incomingInterface) (updateRoute config rte senderAddress incomingInterface) rip
    (range rip.routes.length)

theorem later_handleRte (kept : Kept config rip) (spares : SparesAll config senderAddress incomingInterface rip rte) :
    ∃ next, handleRte config senderAddress incomingInterface rip rte = some next ∧
      Later config (Revives config rte incomingInterface) rip next := by
  obtain ⟨updated, isUpdated, later⟩ := spares.foldlM (Later config (Revives config rte incomingInterface) rip)
    (fun _ sofar spared => by
      obtain ⟨next, isNext, more⟩ := later_updateRoute sofar.kept spared
      exact ⟨next, isNext, sofar.trans more⟩) (.refl kept)
  rw [handleRte, isUpdated]
  split
  next isNew =>
    have finite : rteMetric config rte incomingInterface < config.linkDown := lt_of_le_of_ne rteMetric_le isNew.2
    exact ⟨_, rfl, later.trans (later_learnRoute later.kept finite)⟩
  · exact ⟨_, rfl, later⟩

/-- A response revives an entry. -/
def Revived (config : RipConfig) (rtes : List RipRte) (incomingInterface : Nat) (route : RipRoutingTableEntry) : Prop :=
  accepts config rtes incomingInterface = true ∧ ∃ rte ∈ rtes, Revives config rte incomingInterface route

theorem Later.mono {Other : RipRoutingTableEntry -> Prop} (later : Later config Excused rip next)
    (weaker : ∀ route, Excused route -> Other route) : Later config Other rip next :=
  ⟨later.kept, later.now, fun route mem invalid => (later.lasts route mem invalid).imp id (weaker route)⟩

theorem later_handleResponses (kept : Kept config rip) (spares : accepts config rtes incomingInterface = true ->
      Along (SparesAll config senderAddress incomingInterface)
        (handleRte config senderAddress incomingInterface) rip rtes) :
    ∃ next, rip.handleResponses config rtes senderAddress incomingInterface = some next ∧
      Later config (Revived config rtes incomingInterface) rip next := by
  rw [handleResponses]
  by_cases heard : accepts config rtes incomingInterface = true
  · rw [if_pos heard]
    apply (spares heard).foldlM _ _ (.refl kept)
    intro sofar rte mem later spared
    obtain ⟨next, isNext, more⟩ := later_handleRte later.kept spared
    exact ⟨next, isNext, later.trans (more.mono fun route revives => ⟨heard, rte, mem, revives⟩)⟩
  · rw [if_neg heard]
    exact ⟨rip, rfl, .refl kept⟩

/-! ## Interfaces -/

/-- Of the entries that are covered, those that are invalid already became so just now. -/
def Recent (covered : RipRoutingTableEntry -> Bool) (rip : Rip) : Prop :=
  ∀ route ∈ rip.entries, covered route = true -> route.status = .invalid -> route.statusSince = rip.queue.now

variable {covered : RipRoutingTableEntry -> Bool}

theorem later_invalidateIf (kept : Kept config rip) (recent : Recent covered rip) :
    ∃ next, invalidateIf config covered rip index = some next ∧ Later config Excused rip next ∧
      Recent covered next := by
  rw [invalidateIf]
  cases isSlot : rip.routes[index]? with
  | none => exact ⟨rip, rfl, .refl kept, recent⟩
  | some slot =>
    have isIn := mem_of_getElem? isSlot
    have isEntry : slot.1 ∈ rip.entries := mem_map_of_mem isIn
    simp only
    split
    next isCovered =>
      refine ⟨_, invalidateRoute_eq kept isSlot, kept.later_invalidate isSlot (recent slot.1 isEntry isCovered), ?_⟩
      intro route mem routeCovered invalid
      obtain ⟨place, isPlace, rfl⟩ := mem_map.mp mem
      rcases mem_of_mem_rearm isSlot isPlace with rfl | old
      · -- The entry itself: it became invalid now, or was so just now.
        by_cases already : slot.1.status = .invalid
        · have unchanged := @invalidate_of_invalid config slot.1 rip.queue.now (kept.metric slot isIn) already
          simp only [unchanged]
          exact recent slot.1 isEntry isCovered already
        · simp only [setRouteStatus, if_pos already]
          rfl
      · exact recent place.1 (mem_map_of_mem old) routeCovered invalid
    next => exact ⟨rip, rfl, .refl kept, recent⟩

theorem later_invalidateAll (kept : Kept config rip) (recent : Recent covered rip) :
    ∃ next, rip.invalidateAll config covered = some next ∧ Later config Excused rip next := by
  obtain ⟨next, isNext, later, -⟩ := @foldlM_invariant Rip Nat (invalidateIf config covered)
    (range rip.routes.length) rip (fun next => Later config Excused rip next ∧ Recent covered next)
    (fun _ sofar => by
      obtain ⟨next, isNext, more, still⟩ := later_invalidateIf sofar.1.kept sofar.2
      exact ⟨next, isNext, sofar.1.trans more, still⟩)
    ⟨.refl kept, recent⟩
  exact ⟨next, isNext, later⟩

theorem later_addNetworkRouteTo {network : Ipv4Address} {networkPrefix : Ipv4Mask} {interface : Nat}
    (kept : Kept config rip) : Later config Excused rip (rip.addNetworkRouteTo network networkPrefix interface) := by
  have nothing : WellKept config (rip.routes ++ []) rip.queue rip.allocated := by
    rw [append_nil]
    exact kept
  refine ⟨?_, rfl, fun route mem _ => .inl ?_⟩
  · apply nothing.insert_untouched
    · intro other mem
      rw [append_nil] at mem
      have made := kept.made other mem
      simpa [newRoute, make] using Nat.ne_of_lt made
    · exact Nat.le_succ _
    · simp only [setRouteStatus_id, setRouteMetric_id]
      exact Nat.lt_succ_self _
    · exact metricFits_valid config.linkDown_gt
    · simp
    · simp [newRoute, make]
  · rw [entries, addNetworkRouteTo, map_append]
    exact mem_append_left _ mem

theorem later_notifyInterfaceUp {interface : Nat} {addresses : List (Ipv4InterfaceAddress × AddressScope)}
    (kept : Kept config rip) : Later config Excused rip (rip.notifyInterfaceUp interface addresses) := by
  rw [notifyInterfaceUp]
  induction addresses generalizing rip with
  | nil => exact .refl kept
  | cons addr rest ih =>
    rw [foldl_cons]
    split
    · have first := @later_addNetworkRouteTo config rip Excused
        (addr.1.localAddress.combineMask addr.1.mask) addr.1.mask interface kept
      exact first.trans (ih first.kept)
    · exact ih kept

theorem later_notifyAddAddress {interface : Nat} {isUp : Bool} {addr : Ipv4InterfaceAddress} {scope : AddressScope}
    (kept : Kept config rip) : Later config Excused rip (rip.notifyAddAddress config interface isUp addr scope) := by
  rw [notifyAddAddress]
  split
  · exact later_addNetworkRouteTo kept
  · exact .refl kept

/-! ## Events -/

/-- The event that is due invalidates its entry, or deletes it the garbage collection delay after it
became invalid. -/
theorem expire_spec (kept : Kept config rip) {event : Entry Expiry}
    (taken : rip.queue.takeNext? = some (event, queue)) :
    ∃ next, rip.expire config = some next ∧ Kept config next ∧
      ∀ route ∈ rip.entries, route.status = .invalid -> route ∈ next.entries ∨
        next.queue.now = route.statusSince + config.garbageCollectionDelay ∧
          ∀ other ∈ next.entries, other.id ≠ route.id := by
  obtain ⟨isEvent, -, now, -, others⟩ := takeNext?_spec taken
  obtain ⟨slot, isSlot, uid, callback⟩ := kept.owned event isEvent
  obtain ⟨index, bound, read⟩ := getElem_of_mem isSlot
  have isAt : rip.routes[index]? = some slot := List.getElem?_eq_some_iff.mpr ⟨bound, read⟩
  rw [expire, taken, bind_some, callback, expiry]
  cases status : slot.1.status with
  | valid =>
    refine ⟨_, invalidateRoute_eq kept isAt, ?_, fun route mem invalid => .inl ?_⟩
    · apply kept.rearm rip.allocated isAt (le_refl _)
      · intro other
        rw [mem_cancel, others, uid]
        exact ⟨fun both => both.1, fun both => ⟨both, both.2⟩⟩
      · exact .inl (by simp)
      · exact metricFits_invalid
      · simp [expiry]
      · intro _
        simp [setRouteStatus, status, setRouteMetric]
    · obtain ⟨place, isPlace, rfl⟩ := List.mem_map.mp mem
      have ne : place ≠ slot := by
        rintro rfl
        rw [status] at invalid
        cases invalid
      exact List.mem_map_of_mem (mem_rearm isAt isPlace ne)
  | invalid =>
    obtain ⟨before, after, whole, -, erase⟩ := split_at isAt
    have whole' : WellKept config (before ++ slot :: after) rip.queue rip.allocated := whole ▸ kept
    refine ⟨{ rip with routes := rip.routes.eraseIdx index, queue := queue }, ?_, ?_, ?_⟩
    · simp only [deleteRoute, find_route kept isAt, map_some]
    · rw [Kept]
      simp only [erase]
      exact whole'.drop fun other => (others other).trans (by rw [uid])
    · intro route mem invalid
      obtain ⟨place, isPlace, rfl⟩ := List.mem_map.mp mem
      simp only [erase]
      by_cases same : place = slot
      · subst same
        refine .inr ⟨?_, fun other isOther => ?_⟩
        · rcases kept.armed place isSlot with ⟨-, valid, -⟩ | ⟨its, isIts, itsUid, -, due⟩
          · rw [status] at valid
            cases valid
          · obtain rfl := eq_of_uid isIts isEvent (itsUid.trans uid)
            rw [now, due status]
        · obtain ⟨holder, isHolder, rfl⟩ := List.mem_map.mp isOther
          exact whole'.others_differ holder isHolder
      · rw [whole] at isPlace
        exact .inl (List.mem_map_of_mem ((WellKept.mem_insert.mp isPlace).resolve_left same))

/-! ## Runs -/

/-- A step that does not meet an invalid entry with the metric it has anyway, and does not take down
an entry that has been invalid for some time. -/
def Careful (config : RipConfig) (rip : Rip) : Action -> Prop
  | .response rtes senderAddress incomingInterface =>
    accepts config rtes incomingInterface = true ->
      Along (SparesAll config senderAddress incomingInterface)
        (handleRte config senderAddress incomingInterface) rip rtes
  | .interfaceDown interface => Recent (goesThrough interface) rip
  | .removeAddress interface isUp address scope =>
    isUp = true ∧ scope = .global -> Recent (refersTo interface address) rip
  | _ => True

/-- Why an entry that was invalid before an action is not there as it was: its time had come and it
has been deleted, or a response with a finite metric revived it. -/
def Excuse (config : RipConfig) (action : Action) (next : Rip) (route : RipRoutingTableEntry) : Prop :=
  match action with
  | .expire =>
    next.queue.now = route.statusSince + config.garbageCollectionDelay ∧ ∀ other ∈ next.entries, other.id ≠ route.id
  | .response rtes _ incomingInterface => Revived config rtes incomingInterface route
  | _ => False

/-- Valid entries can be reached, entries that were learned have one event, which fits their status,
and invalid entries are not kept any longer than they are to be. -/
structure Sound (config : RipConfig) (rip : Rip) : Prop where
  reachable : ∀ route ∈ rip.entries, route.status = .valid -> route.metric < config.linkDown
  found : ∀ dst interface route, rip.lookup dst interface = some route -> route.metric < config.linkDown
  timer : ∀ route ∈ rip.entries, route.isGateway = true -> ∃ event ∈ rip.queue.entries, event.callback = route.expiry ∧
      ∀ other ∈ rip.queue.entries, other.callback.route = route.id -> other = event
  collected : ∀ route ∈ rip.entries, route.status = .invalid ->
    rip.queue.now ≤ route.statusSince + config.garbageCollectionDelay

/-- An entry that is invalid is kept, unless there is an excuse. -/
def SoundStep (config : RipConfig) (rip : Rip) (action : Action) (next : Rip) : Prop :=
  ∀ route ∈ rip.entries, route.status = .invalid -> route ∈ next.entries ∨ Excuse config action next route

theorem lookup_valid {dst : Ipv4Address} {interface : Option Nat} (isFound : rip.lookup dst interface = some route) :
    route ∈ rip.entries ∧ route.status = .valid := by
  have search : ∀ (slots : List RouteSlot) (found : Nat × Option RipRoutingTableEntry),
      (slots.foldl (fun found slot =>
        if slot.1.status = .valid ∧ slot.1.destNetworkMask.isMatch dst slot.1.destNetwork ∧
            (interface = none ∨ interface = some slot.1.interface) ∧
            ¬ slot.1.destNetworkMask.getPrefixLength < found.1
        then (slot.1.destNetworkMask.getPrefixLength, some slot.1) else found) found).2 = some route ->
      found.2 = some route ∨ route ∈ slots.map Prod.fst ∧ route.status = .valid := by
    intro slots
    induction slots with
    | nil => exact fun found same => .inl same
    | cons slot rest ih =>
      intro found same
      rw [foldl_cons] at same
      rcases ih _ same with before | ⟨mem, valid⟩
      · split at before
        next chosen =>
          cases before
          exact .inr ⟨mem_cons_self, chosen.1⟩
        · exact .inl before
      · exact .inr ⟨mem_cons_of_mem _ mem, valid⟩
  rcases search rip.routes (0, none) isFound with none | its
  · cases none
  · exact its

theorem Kept.sound (kept : Kept config rip) : Sound config rip := by
  have reachable : ∀ route ∈ rip.entries, route.status = .valid -> route.metric < config.linkDown := by
    intro route mem valid
    obtain ⟨slot, isSlot, rfl⟩ := mem_map.mp mem
    have fits := kept.metric slot isSlot
    rw [MetricFits, valid] at fits
    exact fits
  refine ⟨reachable, fun dst interface route isFound => ?_, fun route mem learned => ?_, fun route mem invalid => ?_⟩
  · obtain ⟨mem, valid⟩ := lookup_valid isFound
    exact reachable route mem valid
  · obtain ⟨slot, isSlot, rfl⟩ := mem_map.mp mem
    rcases kept.armed slot isSlot with ⟨-, -, own⟩ | ⟨event, isEvent, uid, callback, -⟩
    · simp [isGateway, own] at learned
    · exact ⟨event, isEvent, callback, kept.sole isSlot isEvent uid⟩
  · obtain ⟨slot, isSlot, rfl⟩ := mem_map.mp mem
    rcases kept.armed slot isSlot with ⟨-, valid, -⟩ | ⟨event, isEvent, -, -, due⟩
    · rw [valid] at invalid
      cases invalid
    · rw [← due invalid]
      exact rip.queue.future event isEvent

theorem kept_start : Kept config start where
  distinct := .nil
  made := fun _ mem => nomatch mem
  metric := fun _ mem => nomatch mem
  armed := fun _ mem => nomatch mem
  owned := fun _ mem => nomatch mem

theorem Kept.step {action : Action} (kept : Kept config rip) (careful : Careful config rip action)
    (isNext : step config rip action = some next) : Kept config next ∧ SoundStep config rip action next := by
  have ofLater : ∀ {Excused : RipRoutingTableEntry -> Prop}, Later config Excused rip next ->
      (∀ route, Excused route -> Excuse config action next route) ->
      Kept config next ∧ SoundStep config rip action next := fun later excuse =>
    ⟨later.kept, (later.mono excuse).lasts⟩
  cases action with
  | response rtes senderAddress incomingInterface =>
    obtain ⟨final, isFinal, later⟩ := later_handleResponses kept careful
    cases isFinal.symm.trans isNext
    exact ofLater later fun _ revived => revived
  | expire =>
    obtain ⟨⟨event, queue⟩, taken, -⟩ := bind_eq_some_iff.mp isNext
    obtain ⟨final, isFinal, keptFinal, steps⟩ := expire_spec kept taken
    cases isFinal.symm.trans isNext
    exact ⟨keptFinal, steps⟩
  | wait time =>
    obtain ⟨queue, advanced, rfl⟩ := map_eq_some_iff.mp isNext
    obtain ⟨-, -, -, same⟩ := advance?_spec advanced
    exact ⟨kept.of_entries same, fun route mem _ => .inl mem⟩
  | interfaceUp interface addresses =>
    cases isNext
    exact ofLater (later_notifyInterfaceUp kept) fun _ none => none
  | interfaceDown interface =>
    obtain ⟨final, isFinal, later⟩ := @later_invalidateAll config rip (fun _ => False) _ kept careful
    cases isFinal.symm.trans isNext
    exact ofLater later fun _ none => none
  | addAddress interface isUp addr scope =>
    cases isNext
    exact ofLater (later_notifyAddAddress kept) fun _ none => none
  | removeAddress interface isUp addr scope =>
    have isRemoved : rip.notifyRemoveAddress config interface isUp addr scope = some next := isNext
    rw [notifyRemoveAddress] at isRemoved
    split at isRemoved
    next heard =>
      obtain ⟨final, isFinal, later⟩ := @later_invalidateAll config rip (fun _ => False) _ kept (careful heard)
      cases isFinal.symm.trans isRemoved
      exact ofLater later fun _ none => none
    · cases isRemoved
      exact ofLater (.refl kept) fun _ none => none

/-- In a run of careful steps, every state and every step is sound. -/
theorem runs_sound {trace : List (Rip × Action)} (run : (system config).Run trace rip)
    (careful : ∀ entry ∈ trace, Careful config entry.1 entry.2) :
    (∀ entry ∈ trace, Sound config entry.1 ∧
      ∀ next, step config entry.1 entry.2 = some next -> SoundStep config entry.1 entry.2 next) ∧
    Sound config rip := by
  have all : ∀ {trace : List (Rip × Action)} {rip : Rip}, (system config).Run trace rip ->
      (∀ entry ∈ trace, Careful config entry.1 entry.2) -> Kept config rip := fun run careful =>
    run.invariant_of_guard (Kept config) (Careful config) (fun _ isStart => Eq.mpr (congrArg _ isStart) kept_start)
      (fun kept careful isNext => (kept.step careful isNext).1) careful
  refine ⟨?_, (all run careful).sound⟩
  rintro ⟨before, action⟩ member
  obtain ⟨earlier, later, rfl⟩ := append_of_mem member
  obtain ⟨prior, -⟩ := run.before
  have kept := all prior fun entry isEarlier => careful entry (mem_append_left _ isEarlier)
  exact ⟨kept.sound, fun next isNext => (kept.step (careful _ member) isNext).2⟩

/-- The defaults, in seconds. -/
def defaults : RipConfig where
  linkDown := 16
  timeoutDelay := 180
  garbageCollectionDelay := 120
  interfaceExclusions := fun _ => false
  interfaceMetric := fun _ => 1
  linkDown_gt := by decide
  linkDown_lt := by decide

/-- A response of a neighbour with a metric for `10.1.0.0/16`, on an interface of that number. -/
def heard (neighbour metric : Nat) : Action :=
  .response [⟨⟨0x0a010000⟩, ⟨0xffff0000⟩, metric⟩] ⟨UInt32.ofNat neighbour⟩ neighbour

/-- Where some actions lead. -/
def reached (actions : List Action) : Rip :=
  ((system defaults).exec start actions).getD start

theorem exec_reached {actions : List Action} (runs : ((system defaults).exec start actions).isSome = true) :
    (system defaults).exec start actions = some (reached actions) := by
  obtain ⟨rip, isRip⟩ := isSome_iff_exists.mp runs
  rw [reached, isRip]
  rfl

/-- A route is learned, and times out. -/
theorem heard_expire_sound : (∀ entry ∈ (system defaults).steps start [heard 1 1, .expire], Sound defaults entry.1 ∧
      ∀ next, step defaults entry.1 entry.2 = some next -> SoundStep defaults entry.1 entry.2 next) ∧
    Sound defaults (reached [heard 1 1, .expire]) :=
  runs_sound (System.run_of_exec rfl (exec_reached (by decide +kernel))) (by
    intro entry member
    rcases mem_cons.mp member with rfl | later
    · exact fun _ => ⟨trivial, fun _ _ => trivial⟩
    · rcases mem_cons.mp later with rfl | none
      · trivial
      · cases none)

/-- An entry becomes invalid as its gateway announces the link-down metric. Once more than half of
the timeout has gone by, another neighbour that does so makes it valid, with that metric; the gateway
replaces the event that would delete the entry; and an interface that goes down puts it off. -/
theorem not_sound : (∃ rip, (system defaults).Reachable rip ∧ ¬ Sound defaults rip ∧
      ∃ route, rip.lookup ⟨0x0a010001⟩ none = some route ∧ route.metric = defaults.linkDown) ∧
    (∃ rip, (system defaults).Reachable rip ∧ ¬ Sound defaults rip ∧
      ∃ route ∈ rip.entries, route.status = .invalid ∧
        ∀ event ∈ rip.queue.entries, event.callback = .invalidateRoute route.id) ∧
    (∃ rip, (system defaults).Reachable rip ∧ ¬ Sound defaults rip ∧ ∃ route ∈ rip.entries, route.status = .invalid ∧
        route.statusSince + defaults.garbageCollectionDelay < rip.queue.now) := by
  have lead : ∀ {actions : List Action}, ((system defaults).exec start actions).isSome = true ->
      (system defaults).Reachable (reached actions) := fun runs =>
    System.reachable_of_exec rfl _ (exec_reached runs)
  refine ⟨⟨reached [heard 1 1, heard 1 16, .wait 61, heard 2 16], lead (by decide +kernel), ?_⟩,
    ⟨reached [heard 1 1, heard 1 16, heard 1 16], lead (by decide +kernel), ?_⟩,
    ⟨reached [heard 1 1, heard 1 16, .wait 100, .interfaceDown 1, .wait 130], lead (by decide +kernel), ?_⟩⟩
  · have looked : ((reached [heard 1 1, heard 1 16, .wait 61, heard 2 16]).lookup ⟨0x0a010001⟩ none).map
        RipRoutingTableEntry.metric = some 16 := by decide +kernel
    obtain ⟨route, isFound, metric⟩ := map_eq_some_iff.mp looked
    exact ⟨fun sound => absurd metric (Nat.ne_of_lt (sound.found _ _ route isFound)), route, isFound, metric⟩
  · have kept : ∃ route ∈ (reached [heard 1 1, heard 1 16, heard 1 16]).entries, route.isGateway = true ∧
        route.status = .invalid ∧ ∀ event ∈ (reached [heard 1 1, heard 1 16, heard 1 16]).queue.entries,
          event.callback = .invalidateRoute route.id := by decide +kernel
    obtain ⟨route, member, learned, invalid, events⟩ := kept
    refine ⟨fun sound => ?_, route, member, invalid, events⟩
    obtain ⟨event, isEvent, callback, -⟩ := sound.timer route member learned
    rw [events event isEvent, RipRoutingTableEntry.expiry, invalid] at callback
    cases callback
  · have kept : ∃ route ∈ (reached [heard 1 1, heard 1 16, .wait 100, .interfaceDown 1, .wait 130]).entries,
        route.status = .invalid ∧ route.statusSince + defaults.garbageCollectionDelay <
          (reached [heard 1 1, heard 1 16, .wait 100, .interfaceDown 1, .wait 130]).queue.now := by decide +kernel
    obtain ⟨route, member, invalid, late⟩ := kept
    exact ⟨fun sound => absurd (sound.collected route member invalid) (Int.not_le_of_gt late), route, member, invalid,
      late⟩

end Rip

end Ns3.Internet
