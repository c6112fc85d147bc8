import Ns3.Core.Scheduler.Model

/-!
# The list scheduler

`ListScheduler` keeps its events in a sorted list.
-/

namespace Ns3.Core.ListScheduler

open Ns3.Semantics PriorityQueue List

/-- `Insert`, before the first event that comes later. -/
def insert (ev : Event) (events : List Event) : List Event :=
  events.orderedInsert (fun ev i => ev.lt i) ev

/-- `Remove`, which asserts that the event is there. -/
def remove (ev : Event) : List Event -> Option (List Event)
  | [] => none
  | i :: rest =>
    if i.uid = ev.uid then
      if ev.impl = i.impl then some rest else none
    else
      (remove ev rest).map (i :: ·)

def scheduler : Scheduler (List Event) where
  empty := []
  isEmpty := List.isEmpty
  insert := fun events ev => some (insert ev events)
  remove := fun events ev => remove ev events
  peekNext := head?
  removeNext := fun events =>
    match events with
    | [] => none
    | next :: rest => some (next, rest)

/-- The list holds the stored events, sorted. -/
structure Represents (events : List Event) (stored : Multiset Event) : Prop where
  contents : (events : Multiset Event) = stored
  sorted : events.Pairwise fun first second => first.rank ≤ second.rank
  distinct : Distinct Event.uid stored

theorem coe_insert (ev : Event) (events : List Event) :
    (insert ev events : Multiset Event) = ev ::ₘ (events : Multiset Event) :=
  Multiset.coe_eq_coe.mpr (perm_orderedInsert _ ev events)

theorem sorted_insert (ev : Event) {events : List Event}
    (sorted : events.Pairwise fun first second => first.rank ≤ second.rank) :
    (insert ev events).Pairwise fun first second => first.rank ≤ second.rank :=
  pairwise_orderedInsert (fun before => le_of_lt (Event.lt_iff.mp before))
    (fun notBefore => not_lt.mp fun before => notBefore (Event.lt_iff.mpr before)) le_trans sorted

theorem remove_eq {ev : Event} {events : List Event}
    (distinct : ∀ other ∈ events, other.uid = ev.uid -> other = ev) (mem : ev ∈ events) :
    remove ev events = some (events.erase ev) := by
  induction events with
  | nil => cases mem
  | cons i rest ih =>
    rw [remove]
    by_cases same : i.uid = ev.uid
    · obtain rfl := distinct i mem_cons_self same
      simp
    · have other : i ≠ ev := fun equal => same (congrArg Event.uid equal)
      have later : ev ∈ rest := (mem_cons.mp mem).resolve_left (Ne.symm other)
      rw [if_neg same, ih (fun one known => distinct one (mem_cons_of_mem _ known)) later, Option.map_some,
        erase_cons_tail (by simpa using other)]

theorem implements : Implements scheduler Event.uid Event.rank Represents fun _ _ => True where
  empty := ⟨rfl, .nil, fun _ mem => absurd mem (Multiset.notMem_zero _)⟩
  isEmpty := by
    rintro events stored rep
    rw [← rep.contents, Multiset.coe_eq_zero]
    exact List.isEmpty_iff
  peekNext := by
    rintro (_ | ⟨next, rest⟩) stored rep nonempty
    · exact absurd rep.contents.symm nonempty
    · refine ⟨next, rfl, ?_, fun other mem => ?_⟩
      · rw [← rep.contents]
        exact mem_cons_self
      · rw [← rep.contents] at mem
        rcases mem_cons.mp mem with rfl | later
        · exact le_refl _
        · exact (pairwise_cons.mp rep.sorted).1 other later
  step := by
    intro events stored operation rep admissible _
    have distinct := rep.distinct.leaves admissible
    cases operation with
    | insert ev =>
      refine ⟨insert ev events, none, rfl, ⟨?_, sorted_insert ev rep.sorted,
        distinct none⟩, by simp⟩
      rw [coe_insert, rep.contents]
      rfl
    | remove ev =>
      have mem : ev ∈ events := by
        rw [← Multiset.mem_coe, rep.contents]
        exact admissible
      have removed := remove_eq (fun other known same => rep.distinct other
        (by rw [← rep.contents]; exact known) ev admissible same) mem
      refine ⟨events.erase ev, none, by simp [Queue.step, scheduler, removed], ⟨?_,
        rep.sorted.sublist erase_sublist, distinct none⟩, by simp⟩
      rw [← Multiset.coe_erase, rep.contents]
      rfl
    | removeNext =>
      cases events with
      | nil => exact absurd rep.contents.symm admissible
      | cons next rest =>
        obtain ⟨least, sorted⟩ := pairwise_cons.mp rep.sorted
        refine ⟨rest, some next, rfl, ⟨?_, sorted, distinct (some next)⟩, fun _ =>
          ⟨next, rfl, ?_, fun other mem => ?_⟩⟩
        · rw [Operation.leaves, Option.elim_some, ← rep.contents, Multiset.coe_erase,
            erase_cons_head]
        · rw [← rep.contents]
          exact mem_cons_self
        · rw [← rep.contents] at mem
          rcases mem_cons.mp mem with rfl | later
          · exact le_refl _
          · exact least other later

end Ns3.Core.ListScheduler
