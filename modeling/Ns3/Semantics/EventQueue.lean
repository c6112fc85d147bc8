import Mathlib.Data.List.Pairwise
import Mathlib.Order.Basic

/-!
# Discrete-event queues

A clock and the events still to run, each with its expiry time, a unique id in scheduling order and
a callback. An id names at most one pending event and no pending event lies in the past. An event
leaves the queue when it is cancelled or starts to run, so it is not pending while its own callback
executes.

Times are integers in ticks and a delay is a natural number. The id `0` is never issued and stands
for an identifier that was not assigned yet.
-/

namespace Ns3.Semantics

open List

/-- A pending event. -/
structure Entry (κ : Type) where
  ts : Int
  uid : Nat
  callback : κ
deriving DecidableEq

/-- The execution order of events: by expiry time, and by id within one time. -/
def Entry.Before {κ : Type} (first second : Entry κ) : Prop :=
  first.ts < second.ts ∨ first.ts = second.ts ∧ first.uid < second.uid

instance {κ : Type} (first second : Entry κ) : Decidable (first.Before second) :=
  inferInstanceAs (Decidable (_ ∨ _))

/-- A simulator clock together with its pending events. -/
structure EventQueue (κ : Type) where
  now : Int
  nextUid : Nat
  entries : List (Entry κ)
  positive : 0 < nextUid
  issued : ∀ entry ∈ entries, 0 < entry.uid ∧ entry.uid < nextUid
  distinct : entries.Pairwise fun first second => first.uid ≠ second.uid
  future : ∀ entry ∈ entries, now ≤ entry.ts

namespace EventQueue

variable {κ : Type} {queue : EventQueue κ} {entry : Entry κ} {id : Nat}

/-- The queue of a simulation that has not scheduled anything; the ids up to
`lastReserved` are never issued. -/
def empty (lastReserved : Nat) : EventQueue κ where
  now := 0
  nextUid := lastReserved + 1
  entries := []
  positive := Nat.succ_pos _
  issued := by simp
  distinct := .nil
  future := by simp

/-- Enqueue a callback after `delay` and return the id of the new event. -/
def schedule (queue : EventQueue κ) (delay : Nat) (callback : κ) : EventQueue κ × Nat :=
  ({ now := queue.now
     nextUid := queue.nextUid + 1
     entries := queue.entries ++ [⟨queue.now + delay, queue.nextUid, callback⟩]
     positive := Nat.succ_pos _
     issued := by
       intro entry member
       rcases mem_append.mp member with old | new
       · have bounds := queue.issued entry old
         omega
       · have positive := queue.positive
         simp only [mem_singleton] at new
         subst new
         simp only
         omega
     distinct := by
       refine pairwise_append.mpr ⟨queue.distinct, pairwise_singleton _ _, ?_⟩
       intro old member new newMember
       have bounds := queue.issued old member
       simp only [mem_singleton] at newMember
       subst newMember
       simp only
       omega
     future := by
       intro entry member
       rcases mem_append.mp member with old | new
       · exact queue.future entry old
       · simp only [mem_singleton] at new
         subst new
         simp only
         omega },
   queue.nextUid)

/-- Keep only the pending events that satisfy a predicate. -/
def retain (queue : EventQueue κ) (keep : Entry κ -> Bool) : EventQueue κ :=
  { queue with
    entries := queue.entries.filter keep
    issued := fun entry member => queue.issued entry (mem_filter.mp member).1
    distinct := queue.distinct.filter _
    future := fun entry member => queue.future entry (mem_filter.mp member).1 }

/-- Cancel the event with this id, if it is pending. -/
def cancel (queue : EventQueue κ) (id : Nat) : EventQueue κ :=
  queue.retain fun entry => entry.uid != id

/-- Whether the event with this id is scheduled, not cancelled and not started. -/
def isPending (queue : EventQueue κ) (id : Nat) : Bool :=
  queue.entries.any fun entry => entry.uid == id

/-- The pending event that is executed next. -/
def earliest? : List (Entry κ) -> Option (Entry κ)
  | [] => none
  | entry :: rest =>
    match earliest? rest with
    | none => some entry
    | some other => if other.Before entry then some other else some entry

/-- The earliest event is in the list, and no event of the list expires before it. -/
theorem earliest?_spec {entries : List (Entry κ)} (found : earliest? entries = some entry) :
    entry ∈ entries ∧ ∀ other ∈ entries, entry.ts ≤ other.ts := by
  induction entries generalizing entry with
  | nil => simp [earliest?] at found
  | cons head rest ih =>
    simp only [earliest?] at found
    cases next : earliest? rest with
    | none =>
      have empty : rest = [] := by
        cases rest with
        | nil => rfl
        | cons first tail =>
          simp only [earliest?] at next
          split at next
          · cases next
          · split at next <;> cases next
      simp only [next, Option.some.injEq] at found
      subst found empty
      simp
    | some other =>
      obtain ⟨mem, least⟩ := ih next
      simp only [next] at found
      split at found
      next before =>
        cases found
        refine ⟨mem_cons_of_mem _ mem, fun candidate candidateMember => ?_⟩
        rcases mem_cons.mp candidateMember with rfl | inRest
        · rcases before with earlier | ⟨same, _⟩ <;> omega
        · exact least candidate inRest
      next notBefore =>
        cases found
        refine ⟨mem_cons_self, fun candidate candidateMember => ?_⟩
        rcases mem_cons.mp candidateMember with rfl | inRest
        · exact Int.le_refl _
        · have bound := least candidate inRest
          have notEarlier : ¬ other.ts < head.ts := fun earlier => notBefore (.inl earlier)
          omega

/-- Advance the clock to a time that no pending event precedes. -/
def setNow (queue : EventQueue κ) (time : Int) (future : ∀ entry ∈ queue.entries, time ≤ entry.ts) : EventQueue κ :=
  { queue with now := time, future := future }

/-- Let time pass up to `time`; refused if it goes back or skips a pending event. -/
def advance? (queue : EventQueue κ) (time : Int) : Option (EventQueue κ) :=
  if within : queue.now ≤ time ∧ ∀ entry ∈ queue.entries, time ≤ entry.ts then
    some (queue.setNow time within.2)
  else
    none

/-- Start the next event: the clock moves to its expiry and it stops being pending. -/
def takeNext? (queue : EventQueue κ) : Option (Entry κ × EventQueue κ) :=
  match found : earliest? queue.entries with
  | none => none
  | some entry =>
    some (entry, (queue.setNow entry.ts (earliest?_spec found).2).cancel entry.uid)

/-- Number of pending events whose callback satisfies a predicate. -/
def pendingCount (queue : EventQueue κ) (select : κ -> Bool) : Nat :=
  queue.entries.countP fun entry => select entry.callback

@[simp] theorem now_cancel : (queue.cancel id).now = queue.now := rfl

variable {callback : κ}

@[simp] theorem mem_schedule {delay : Nat} : entry ∈ (queue.schedule delay callback).1.entries ↔
    entry ∈ queue.entries ∨ entry = ⟨queue.now + delay, queue.nextUid, callback⟩ := by
  simp [schedule]

@[simp] theorem mem_cancel : entry ∈ (queue.cancel id).entries ↔ entry ∈ queue.entries ∧ entry.uid ≠ id := by
  simp [cancel, retain]

/-- An id is pending exactly when some pending event carries it. -/
theorem isPending_iff : queue.isPending id = true ↔ ∃ entry ∈ queue.entries, entry.uid = id := by
  simp [isPending]

/-- An id names at most one pending event. -/
theorem eq_of_uid {first second : Entry κ} (firstMember : first ∈ queue.entries)
    (secondMember : second ∈ queue.entries) (same : first.uid = second.uid) : first = second := by
  by_contra ne
  have symmetric : Std.Symm fun first second : Entry κ => first.uid ≠ second.uid :=
    ⟨fun _ _ distinct => distinct.symm⟩
  exact queue.distinct.forall firstMember secondMember ne same

@[simp] theorem isPending_cancel_self : (queue.cancel id).isPending id = false := by
  refine Bool.eq_false_iff.mpr fun pending => ?_
  obtain ⟨entry, mem, same⟩ := isPending_iff.mp pending
  exact (mem_cancel.mp mem).2 same

@[simp] theorem isPending_schedule_self (delay : Nat) (callback : κ) :
    (queue.schedule delay callback).1.isPending (queue.schedule delay callback).2 = true :=
  isPending_iff.mpr ⟨_, mem_schedule.mpr (.inr rfl), rfl⟩

/-- Cancelling an id that is not pending changes nothing. -/
theorem cancel_of_not_pending (idle : queue.isPending id = false) : queue.cancel id = queue := by
  have none : ∀ entry ∈ queue.entries, entry.uid ≠ id := by
    intro entry mem same
    have pending := isPending_iff.mpr ⟨entry, mem, same⟩
    simp [idle] at pending
  have unchanged : queue.entries.filter (fun entry => entry.uid != id) = queue.entries :=
    filter_eq_self.mpr fun entry mem => by simpa using none entry mem
  cases queue
  simpa only [cancel, retain, EventQueue.mk.injEq, true_and] using unchanged

/-- Asking first whether an event is pending does not change what `cancel` does. -/
@[simp] theorem ite_isPending_cancel :
    (if queue.isPending id = true then queue.cancel id else queue) = queue.cancel id := by
  split
  · rfl
  · next idle => exact (cancel_of_not_pending (by simpa using idle)).symm

variable {next : EventQueue κ}

/-- What starting the next event does to the queue. -/
theorem takeNext?_spec (taken : queue.takeNext? = some (entry, next)) :
    entry ∈ queue.entries ∧ queue.now ≤ entry.ts ∧ next.now = entry.ts ∧ next.nextUid = queue.nextUid ∧
      ∀ other, other ∈ next.entries ↔ other ∈ queue.entries ∧ other.uid ≠ entry.uid := by
  unfold takeNext? at taken
  split at taken
  next => cases taken
  next found chosen =>
    simp only [Option.some.injEq, Prod.mk.injEq] at taken
    obtain ⟨rfl, rfl⟩ := taken
    have mem := (earliest?_spec chosen).1
    refine ⟨mem, queue.future _ mem, rfl, rfl, fun other => ?_⟩
    rw [mem_cancel]
    rfl

/-- What letting time pass does to the queue. -/
theorem advance?_spec {time : Int} (advanced : queue.advance? time = some next) :
    queue.now ≤ time ∧ next.now = time ∧ next.nextUid = queue.nextUid ∧ next.entries = queue.entries := by
  unfold advance? at advanced
  split at advanced
  next within =>
    cases advanced
    exact ⟨within.1, rfl, rfl, rfl⟩
  next => cases advanced

/-- A stored id was issued before, and the event it names, if still pending, runs
this callback. -/
def Owns (queue : EventQueue κ) (id : Nat) (callback : κ) : Prop :=
  id < queue.nextUid ∧ ∀ entry ∈ queue.entries, entry.uid = id -> entry.callback = callback

/-- No other pending event than the one named runs this callback. -/
def Sole (queue : EventQueue κ) (id : Nat) (callback : κ) : Prop :=
  ∀ entry ∈ queue.entries, entry.callback = callback -> entry.uid = id

/-- The unassigned id owns every callback. -/
theorem owns_zero (callback : κ) : queue.Owns 0 callback := by
  refine ⟨queue.positive, fun entry mem same => ?_⟩
  have pos := (queue.issued entry mem).1
  omega

/-- Ownership survives the removal of pending events. -/
theorem Owns.of_subset (owns : queue.Owns id callback)
    (uids : next.nextUid = queue.nextUid) (subset : ∀ entry ∈ next.entries, entry ∈ queue.entries) :
    next.Owns id callback :=
  ⟨uids ▸ owns.1, fun entry mem => owns.2 entry (subset entry mem)⟩

theorem Owns.cancel (owns : queue.Owns id callback) (other : Nat) : (queue.cancel other).Owns id callback :=
  owns.of_subset rfl fun _ mem => (mem_cancel.mp mem).1

/-- Ownership survives scheduling, because ids are not reused. -/
theorem Owns.schedule (owns : queue.Owns id callback) (delay : Nat) (other : κ) :
    (queue.schedule delay other).1.Owns id callback := by
  refine ⟨Nat.lt_succ_of_lt owns.1, fun entry mem same => ?_⟩
  rcases mem_schedule.mp mem with old | rfl
  · exact owns.2 entry old same
  · exact absurd owns.1 (by simp [← same])

/-- The id returned by `schedule` owns the scheduled callback. -/
theorem owns_schedule_self (delay : Nat) (callback : κ) :
    (queue.schedule delay callback).1.Owns (queue.schedule delay callback).2 callback := by
  refine ⟨Nat.lt_succ_self _, fun entry mem same => ?_⟩
  rcases mem_schedule.mp mem with old | rfl
  · have bound := (queue.issued entry old).2
    exact absurd same (Nat.ne_of_lt bound)
  · rfl

section

variable (sole : queue.Sole id callback)
include sole

theorem Sole.of_subset
    (subset : ∀ entry ∈ next.entries, entry ∈ queue.entries) : next.Sole id callback :=
  fun entry mem => sole entry (subset entry mem)

theorem Sole.cancel (other : Nat) : (queue.cancel other).Sole id callback :=
  sole.of_subset fun _ mem => (mem_cancel.mp mem).1

/-- Scheduling another callback adds no event of this one. -/
theorem Sole.schedule {other : κ}
    (ne : other ≠ callback) (delay : Nat) : (queue.schedule delay other).1.Sole id callback := by
  intro entry mem same
  rcases mem_schedule.mp mem with old | rfl
  · exact sole entry old same
  · exact absurd same ne

/-- Once the named event is cancelled, the callback can be scheduled anew and the
new event is the only one. -/
theorem Sole.reschedule (delay : Nat) :
    ((queue.cancel id).schedule delay callback).1.Sole ((queue.cancel id).schedule delay callback).2 callback := by
  intro entry mem same
  rcases mem_schedule.mp mem with old | rfl
  · have kept := mem_cancel.mp old
    exact absurd (sole entry kept.1 same) kept.2
  · rfl

end

/-- Cancelling an owned id keeps the events of every other callback. -/
theorem mem_cancel_of_owns (owns : queue.Owns id callback) (ne : entry.callback ≠ callback) :
    entry ∈ (queue.cancel id).entries ↔ entry ∈ queue.entries := by
  refine mem_cancel.trans ⟨And.left, fun mem => ⟨mem, fun same => ?_⟩⟩
  exact ne (owns.2 entry mem same)

@[simp] theorem pendingCount_schedule (select : κ -> Bool) (delay : Nat) (callback : κ) :
    (queue.schedule delay callback).1.pendingCount select =
      queue.pendingCount select + if select callback then 1 else 0 := by
  simp [pendingCount, schedule, countP_cons]

/-- No event of a kind is pending exactly when their count is zero. -/
theorem pendingCount_eq_zero {select : κ -> Bool} :
    queue.pendingCount select = 0 ↔ ∀ entry ∈ queue.entries, select entry.callback = false := by
  simp [pendingCount, countP_eq_zero]

/-- Removing one pending event lowers the count of its kind by one and leaves
the other kinds alone. -/
theorem pendingCount_cancel_of_mem (select : κ -> Bool) (mem : entry ∈ queue.entries) :
    (queue.cancel entry.uid).pendingCount select + (if select entry.callback then 1 else 0) =
      queue.pendingCount select := by
  obtain ⟨now, nextUid, entries, pos, issued, distinct, future⟩ := queue
  simp only [pendingCount, cancel, retain] at mem ⊢
  clear issued future
  induction entries with
  | nil => simp at mem
  | cons head rest ih =>
    have headDistinct := pairwise_cons.mp distinct
    rcases mem_cons.mp mem with rfl | inRest
    · have others : rest.filter (fun other => other.uid != entry.uid) = rest :=
        filter_eq_self.mpr fun other otherMember => by
          simpa using (headDistinct.1 other otherMember).symm
      simp [others, countP_cons]
    · have differs : head.uid ≠ entry.uid := headDistinct.1 entry inRest
      have tail := ih headDistinct.2 inRest
      simp only [filter_cons, bne_iff_ne, ne_eq, differs, not_false_eq_true, if_true, countP_cons]
      omega

/-- Cancelling an event of another kind, or no event, leaves a count unchanged. -/
theorem pendingCount_cancel_of_other {select : κ -> Bool}
    (other : ∀ entry ∈ queue.entries, entry.uid = id -> select entry.callback = false) :
    (queue.cancel id).pendingCount select = queue.pendingCount select := by
  by_cases pending : queue.isPending id = true
  · obtain ⟨entry, mem, rfl⟩ := isPending_iff.mp pending
    have counted := pendingCount_cancel_of_mem select mem
    simpa [other entry mem rfl] using counted
  · rw [cancel_of_not_pending (by simpa using pending)]

/-- Starting an event lowers the count of its kind by one. -/
theorem pendingCount_takeNext (select : κ -> Bool) (taken : queue.takeNext? = some (entry, next)) :
    next.pendingCount select + (if select entry.callback then 1 else 0) = queue.pendingCount select := by
  unfold takeNext? at taken
  split at taken
  next => cases taken
  next found chosen =>
    simp only [Option.some.injEq, Prod.mk.injEq] at taken
    obtain ⟨rfl, rfl⟩ := taken
    have mem : found ∈ (queue.setNow found.ts (earliest?_spec chosen).2).entries :=
      (earliest?_spec chosen).1
    have counted := pendingCount_cancel_of_mem select mem
    simpa [pendingCount, setNow] using counted

end EventQueue

end Ns3.Semantics
