import Ns3.Core.Simulator.ExecutionOrder

/-!
# The map scheduler

`MapScheduler` keeps its events in a `std::map` from their keys. The map is the list of its entries
in the order of the keys.
-/

namespace Ns3.Core

open Ns3.Semantics PriorityQueue DefaultSimulatorImpl List

namespace MapScheduler

/-- `Insert`, which asserts that no event has an equivalent key. -/
def insert (ev : Event) : List Event -> Option (List Event)
  | [] => some [ev]
  | i :: rest =>
    if ev.lt i then
      some (ev :: i :: rest)
    else if i.lt ev then
      (insert ev rest).map (i :: ·)
    else
      none

/-- `Remove`, which asserts that the key is that of the event. -/
def remove (ev : Event) : List Event -> Option (List Event)
  | [] => none
  | i :: rest =>
    if i.lt ev then
      (remove ev rest).map (i :: ·)
    else if ev.lt i then
      none
    else if i.impl = ev.impl then
      some rest
    else
      none

def scheduler : Scheduler (List Event) where
  empty := []
  isEmpty := List.isEmpty
  insert := fun events ev => insert ev events
  remove := fun events ev => remove ev events
  peekNext := head?
  removeNext := fun events =>
    match events with
    | [] => none
    | next :: rest => some (next, rest)

variable {ev : Event} {events : List Event}

/-- Where the uid is new, `Insert` is that of the list scheduler. -/
theorem insert_eq (fresh : ∀ other ∈ events, other.uid ≠ ev.uid) :
    insert ev events = some (ListScheduler.insert ev events) := by
  induction events with
  | nil => rfl
  | cons i rest ih =>
    have further := ih fun other mem => fresh other (mem_cons_of_mem _ mem)
    rw [insert, ListScheduler.insert, orderedInsert_cons]
    by_cases before : ev.lt i = true
    · rw [if_pos before, if_pos before]
    · have distinct : i.rank ≠ ev.rank := fun same => fresh i mem_cons_self (Event.uid_eq_of_rank same)
      have after : i.lt ev = true := by
        rw [Event.lt_iff] at before ⊢
        exact lt_of_le_of_ne (not_lt.mp before) distinct
      rw [if_neg before, if_pos after, if_neg before, further, Option.map_some]
      rfl

/-- Where the event is stored, `Remove` is that of the list scheduler. -/
theorem remove_eq (distinct : ∀ other ∈ events, other.uid = ev.uid -> other = ev)
    (sorted : events.Pairwise fun first second => first.rank ≤ second.rank) (mem : ev ∈ events) :
    remove ev events = some (events.erase ev) := by
  induction events with
  | nil => cases mem
  | cons i rest ih =>
    obtain ⟨least, sortedRest⟩ := pairwise_cons.mp sorted
    rw [remove]
    by_cases same : i = ev
    · subst same
      simp [Event.lt_iff]
    · have later : ev ∈ rest := (mem_cons.mp mem).resolve_left (Ne.symm same)
      have before : i.lt ev = true := by
        rw [Event.lt_iff]
        exact lt_of_le_of_ne (least ev later)
          fun equal => same (distinct i mem_cons_self (Event.uid_eq_of_rank equal))
      rw [if_pos before, ih (fun one known => distinct one (mem_cons_of_mem _ known)) sortedRest later,
        Option.map_some, erase_cons_tail (by simpa using same)]

/-- The operations a simulation asks for are those of the list scheduler. -/
theorem step_eq {stored : Multiset Event} {operation : Operation Event}
    (rep : ListScheduler.Represents events stored) (admissible : Admissible Event.uid stored operation) :
    scheduler.step events operation = ListScheduler.scheduler.step events operation := by
  obtain rfl := rep.contents
  cases operation with
  | insert ev => simp only [Queue.step, scheduler, ListScheduler.scheduler, insert_eq admissible]
  | remove ev =>
    have known : ∀ other ∈ events, other.uid = ev.uid -> other = ev :=
      fun other mem same => rep.distinct other mem ev admissible same
    simp only [Queue.step, scheduler, ListScheduler.scheduler, remove_eq known rep.sorted admissible,
      ListScheduler.remove_eq known admissible]
  | removeNext => rfl

theorem implements : Implements scheduler Event.uid Event.rank ListScheduler.Represents fun _ _ => True where
  empty := ListScheduler.implements.empty
  isEmpty := ListScheduler.implements.isEmpty
  peekNext := ListScheduler.implements.peekNext
  step := fun rep admissible guard => by
    rw [step_eq rep admissible]
    exact ListScheduler.implements.step rep admissible guard

/-- On every run of admissible operations the map holds the events inserted and not removed, hands
out a first one each time, and hands out what the list scheduler does. -/
theorem agrees_with_list {trace : List (Comparison (List Event) (List Event) Event × Operation Event)}
    {both : Comparison (List Event) (List Event) Event}
    (run : (sideBySide scheduler ListScheduler.scheduler Event.uid).Run trace both) :
    Agrees Event.uid Event.rank scheduler ListScheduler.Represents (fun _ _ => True) both := by
  suffices together : ListScheduler.Represents both.store both.stored ∧ both.reference = some both.store ∧
      both.referenceReturned = both.returned by
    obtain ⟨rep, -, same⟩ := together
    refine ⟨rep, fun operation admissible _ => ?_, implements.peekNext rep, fun nonempty => ?_, same⟩
    · obtain ⟨next, output, stepped, -⟩ := implements.step rep admissible trivial
      rw [stepped]
      rfl
    · obtain ⟨entry, next, taken, -, least⟩ := implements.removeNext rep nonempty
      exact ⟨entry, next, taken, least⟩
  refine run.invariant_of_guard (fun both => ListScheduler.Represents both.store both.stored ∧
    both.reference = some both.store ∧ both.referenceReturned = both.returned)
      (fun _ _ => True) ?_ ?_ fun _ _ => trivial
  · rintro both rfl
    exact ⟨implements.empty, rfl, rfl⟩
  · rintro both operation next ⟨rep, reference, same⟩ - transition
    obtain ⟨admissible, store, output, stepped, rfl, stored, returned, answered⟩ := sideBySide_step transition
    obtain ⟨_, _, known, kept, -⟩ := implements.step rep admissible trivial
    cases stepped.symm.trans known
    obtain ⟨nextReference, nextReturned⟩ := answered (some (next.store, output)) (by
      rw [reference, Option.bind_some, ← step_eq rep admissible, stepped])
    rw [stored]
    refine ⟨kept, nextReference, ?_⟩
    rw [nextReturned, returned, same]
    rfl

/-- Two events of one time, handed out as they were inserted. -/
theorem agrees_with_list_twins : ∃ trace both, (sideBySide scheduler ListScheduler.scheduler Event.uid).Run trace both ∧
    both.returned = [eventAt 3 5, eventAt 3 6] ∧
      Agrees Event.uid Event.rank scheduler ListScheduler.Represents (fun _ _ => True) both := by
  have handedOut : ((sideBySide scheduler ListScheduler.scheduler Event.uid).exec ⟨[], some [], 0, [], []⟩
      [.insert (eventAt 3 6), .insert (eventAt 7 4), .insert (eventAt 3 5), .remove (eventAt 7 4), .removeNext,
        .removeNext]).map Comparison.returned = some [eventAt 3 5, eventAt 3 6] := by
    decide +kernel
  obtain ⟨both, executed, same⟩ := Option.map_eq_some_iff.mp handedOut
  have run := System.run_of_exec
    (show (sideBySide scheduler ListScheduler.scheduler Event.uid).Initial _ from rfl) executed
  exact ⟨_, both, run, same, agrees_with_list run⟩

end MapScheduler

end Ns3.Core
