import Mathlib.Data.List.Sort
import Mathlib.Data.Multiset.AddSub
import Mathlib.Data.Multiset.Basic
import Ns3.Semantics.Run

/-!
# Priority queues

A priority queue hands out the entry of least rank; entries are told apart by an id. `Implements`
says that a store of a `Queue` represents a multiset of entries through every admissible operation.
`Comparison` runs two queues on the same operations and keeps the entries inserted and not removed
since.
-/

namespace Ns3.Semantics

open List Option

universe u v w

namespace PriorityQueue

variable {Entry : Type u} {Id : Type v} {Rank : Type w} [LinearOrder Rank]

/-- An operation on a priority queue. -/
inductive Operation (Entry : Type u) where
  | insert (entry : Entry)
  | remove (entry : Entry)
  | removeNext
  deriving DecidableEq

/-- An entry of least rank. -/
def Least (rank : Entry -> Rank) (entry : Entry) (stored : Multiset Entry) : Prop :=
  entry ∈ stored ∧ ∀ other ∈ stored, rank entry ≤ rank other

/-- No two entries have the same id. -/
def Distinct (id : Entry -> Id) (stored : Multiset Entry) : Prop :=
  ∀ entry ∈ stored, ∀ other ∈ stored, id entry = id other -> entry = other

/-- No entry has the id of this one. -/
def Fresh (id : Entry -> Id) (entry : Entry) (stored : Multiset Entry) : Prop :=
  ∀ other ∈ stored, id other ≠ id entry

/-- The entries an operation leaves, given what it hands out. -/
def Operation.leaves [DecidableEq Entry] (stored : Multiset Entry) (output : Option Entry) :
    Operation Entry -> Multiset Entry
  | insert entry => entry ::ₘ stored
  | remove entry => stored.erase entry
  | removeNext => output.elim stored stored.erase

/-- An operation the users of a queue may ask for: only new ids are inserted, only
stored entries are removed, and the queue is not empty when the next is taken. -/
def Admissible (id : Entry -> Id) (stored : Multiset Entry) : Operation Entry -> Prop
  | .insert entry => Fresh id entry stored
  | .remove entry => entry ∈ stored
  | .removeNext => stored ≠ 0

instance [DecidableEq Entry] [DecidableEq Id] (id : Entry -> Id) (stored : Multiset Entry)
    (operation : Operation Entry) : Decidable (Admissible id stored operation) :=
  match operation with
  | .insert entry => inferInstanceAs (Decidable (∀ other ∈ stored, id other ≠ id entry))
  | .remove entry => inferInstanceAs (Decidable (entry ∈ stored))
  | .removeNext => inferInstanceAs (Decidable (stored ≠ 0))

/-- Inserting an entry before the first one it precedes keeps a list sorted. -/
theorem pairwise_orderedInsert {Precedes NotAfter : Entry -> Entry -> Prop}
    [DecidableRel Precedes] {entries : List Entry} {entry : Entry}
    (weaken : ∀ {first second}, Precedes first second -> NotAfter first second)
    (total : ∀ {first second}, ¬Precedes first second -> NotAfter second first)
    (trans : ∀ {first second third}, NotAfter first second -> NotAfter second third -> NotAfter first third)
    (sorted : entries.Pairwise NotAfter) : (entries.orderedInsert Precedes entry).Pairwise NotAfter := by
  induction entries with
  | nil => exact pairwise_singleton _ _
  | cons first rest ih =>
    obtain ⟨least, sortedRest⟩ := pairwise_cons.mp sorted
    rw [orderedInsert_cons]
    split
    · rename_i before
      refine pairwise_cons.mpr ⟨fun other mem => ?_, sorted⟩
      rcases mem_cons.mp mem with rfl | later
      · exact weaken before
      · exact trans (weaken before) (least other later)
    · rename_i notBefore
      refine pairwise_cons.mpr ⟨fun other mem => ?_, ih sortedRest⟩
      rcases mem_cons.mp ((perm_orderedInsert _ entry rest).mem_iff.mp mem) with
        rfl | later
      · exact total notBefore
      · exact least other later

/-- The interface of an implementation; `none` is a failed assertion. -/
structure Queue (Store : Type u) (Entry : Type v) where
  empty : Store
  isEmpty : Store -> Bool
  insert : Store -> Entry -> Option Store
  remove : Store -> Entry -> Option Store
  peekNext : Store -> Option Entry
  removeNext : Store -> Option (Entry × Store)

/-- An operation of an implementation, with the entry it hands out. -/
def Queue.step {Store : Type v} (queue : Queue Store Entry) (store : Store) :
    Operation Entry -> Option (Store × Option Entry)
  | .insert entry => (queue.insert store entry).map fun next => (next, none)
  | .remove entry => (queue.remove store entry).map fun next => (next, none)
  | .removeNext => (queue.removeNext store).map fun (entry, next) => (next, some entry)

/-- A store does what it should on the stored entries: an operation succeeds,
leaves a representing store, and hands out a least entry. -/
structure Implements [DecidableEq Entry] {Store : Type v} (queue : Queue Store Entry)
    (id : Entry -> Id) (rank : Entry -> Rank) (Represents : Store -> Multiset Entry -> Prop)
    (Guard : Store -> Operation Entry -> Prop) : Prop where
  empty : Represents queue.empty 0
  isEmpty : ∀ {store stored}, Represents store stored -> (queue.isEmpty store = true ↔ stored = 0)
  peekNext : ∀ {store stored}, Represents store stored -> stored ≠ 0 ->
    ∃ entry, queue.peekNext store = some entry ∧ Least rank entry stored
  step : ∀ {store stored operation}, Represents store stored -> Admissible id stored operation ->
    Guard store operation -> ∃ next output, queue.step store operation = some (next, output) ∧
      Represents next (operation.leaves stored output) ∧
        (operation = .removeNext -> ∃ entry, output = some entry ∧ Least rank entry stored)

section Unguarded

variable [DecidableEq Entry] {Store : Type v} {queue : Queue Store Entry} {id : Entry -> Id}
  {rank : Entry -> Rank} {Represents : Store -> Multiset Entry -> Prop} {store : Store}
  {stored : Multiset Entry} {entry : Entry}

section

variable (implements : Implements queue id rank Represents fun _ _ => True)
include implements

theorem Implements.insert (rep : Represents store stored) (fresh : Fresh id entry stored) :
    ∃ next, queue.insert store entry = some next ∧ Represents next (entry ::ₘ stored) := by
  obtain ⟨next, output, stepped, represented, -⟩ := implements.step rep
    (show Admissible id stored (.insert entry) from fresh) trivial
  obtain ⟨inserted, success, same⟩ := map_eq_some_iff.mp stepped
  obtain ⟨rfl, -⟩ := Prod.mk.inj same
  exact ⟨inserted, success, represented⟩

theorem Implements.remove (rep : Represents store stored) (mem : entry ∈ stored) :
    ∃ next, queue.remove store entry = some next ∧ Represents next (stored.erase entry) := by
  obtain ⟨next, output, stepped, represented, -⟩ := implements.step rep
    (show Admissible id stored (.remove entry) from mem) trivial
  obtain ⟨removed, success, same⟩ := map_eq_some_iff.mp stepped
  obtain ⟨rfl, -⟩ := Prod.mk.inj same
  exact ⟨removed, success, represented⟩

theorem Implements.removeNext (rep : Represents store stored) (nonempty : stored ≠ 0) :
    ∃ entry next, queue.removeNext store = some (entry, next) ∧
      Represents next (stored.erase entry) ∧ Least rank entry stored := by
  obtain ⟨next, output, stepped, represented, least⟩ := implements.step rep
    (show Admissible id stored .removeNext from nonempty) trivial
  obtain ⟨taken, rfl, isLeast⟩ := least rfl
  obtain ⟨⟨handed, rest⟩, success, same⟩ := map_eq_some_iff.mp stepped
  obtain ⟨rfl, sameEntry⟩ := Prod.mk.inj same
  obtain rfl := some.inj sameEntry
  exact ⟨handed, rest, success, represented, isLeast⟩

end

end Unguarded

variable {id : Entry -> Id} {stored : Multiset Entry}

theorem Least.unique {rank : Entry -> Rank}
    {left right : Entry} (injective : ∀ entry other, rank entry = rank other -> id entry = id other)
    (distinct : Distinct id stored) (first : Least rank left stored)
    (second : Least rank right stored) : left = right :=
  distinct left first.1 right second.1
    (injective left right (le_antisymm (first.2 right second.1) (second.2 left first.1)))

theorem Distinct.erase [DecidableEq Entry]
    (distinct : Distinct id stored) (entry : Entry) : Distinct id (stored.erase entry) :=
  fun first firstMember second secondMember =>
    distinct first (Multiset.mem_of_mem_erase firstMember) second (Multiset.mem_of_mem_erase secondMember)

theorem Distinct.cons {entry : Entry}
    (distinct : Distinct id stored) (fresh : Fresh id entry stored) : Distinct id (entry ::ₘ stored) := by
  intro first firstMember second secondMember same
  rw [Multiset.mem_cons] at firstMember secondMember
  rcases firstMember with rfl | firstOld
  · rcases secondMember with rfl | secondOld
    · rfl
    · exact absurd same.symm (fresh second secondOld)
  · rcases secondMember with rfl | secondOld
    · exact absurd same (fresh first firstOld)
    · exact distinct first firstOld second secondOld same

theorem Distinct.leaves [DecidableEq Entry] {operation : Operation Entry} (distinct : Distinct id stored)
    (admissible : Admissible id stored operation) (output : Option Entry) :
    Distinct id (operation.leaves stored output) := by
  cases operation with
  | insert entry => exact distinct.cons admissible
  | remove entry => exact distinct.erase entry
  | removeNext =>
    cases output with
    | none => exact distinct
    | some entry => exact distinct.erase entry

/-- Two queues that serve the same operations: their stores, the entries inserted
and not removed, and what each handed out. The second one may fail. -/
structure Comparison (Store : Type v) (Reference : Type w) (Entry : Type u) where
  store : Store
  reference : Option Reference
  stored : Multiset Entry
  returned : List Entry
  referenceReturned : List Entry

section Comparison

variable {Store Reference : Type v} [DecidableEq Entry] [DecidableEq Id]

/-- The stores of two queues on admissible operations. -/
def sideBySide (queue : Queue Store Entry) (reference : Queue Reference Entry) (id : Entry -> Id) :
    System (Comparison Store Reference Entry) (Operation Entry) where
  Initial := fun both => both = ⟨queue.empty, some reference.empty, 0, [], []⟩
  step := fun both operation =>
    if Admissible id both.stored operation then
      (queue.step both.store operation).map fun (next, output) =>
        let answer := both.reference.bind fun store => reference.step store operation
        { store := next
          reference := answer.map Prod.fst
          stored := operation.leaves both.stored output
          returned := both.returned ++ output.toList
          referenceReturned := both.referenceReturned ++ (answer.bind Prod.snd).toList }
    else
      none

variable {operation : Operation Entry}

variable {queue : Queue Store Entry} {reference : Queue Reference Entry} {id : Entry -> Id}
  {both : Comparison Store Reference Entry} {output : Option Entry}

/-- What a step of both queues does. -/
theorem sideBySide_step {next : Comparison Store Reference Entry}
    (moves : (sideBySide queue reference id).step both operation = some next) :
    Admissible id both.stored operation ∧ ∃ store output, queue.step both.store operation = some (store, output) ∧
        next.store = store ∧ next.stored = operation.leaves both.stored output ∧
          next.returned = both.returned ++ output.toList ∧
            ∀ answer, both.reference.bind (fun store => reference.step store operation) = answer ->
              next.reference = answer.map Prod.fst ∧ next.referenceReturned =
                  both.referenceReturned ++ (answer.bind Prod.snd).toList := by
  simp only [sideBySide, ite_none_right_eq_some, map_eq_some_iff] at moves
  obtain ⟨admissible, ⟨store, output⟩, stepped, rfl⟩ := moves
  exact ⟨admissible, store, output, stepped, rfl, rfl, rfl, fun answer same => by simp [same]⟩

/-- An admissible operation the queue serves is a step of both. -/
theorem exists_sideBySide_step (reference : Queue Reference Entry) {store : Store}
    (admissible : Admissible id both.stored operation)
    (stepped : queue.step both.store operation = some (store, output)) :
    ∃ next, (sideBySide queue reference id).step both operation = some next ∧
      next.store = store ∧ next.stored = operation.leaves both.stored output ∧
        next.returned = both.returned ++ output.toList := by
  simp only [sideBySide, if_pos admissible, stepped, map_some]
  exact ⟨_, rfl, rfl, rfl, rfl⟩

omit [DecidableEq Id] in
/-- A queue that implements the interface answers an operation as any other that
does the right thing on it. -/
theorem Implements.answers {rank : Entry -> Rank} {RepresentsIn : Reference -> Multiset Entry -> Prop}
    (implements : Implements reference id rank RepresentsIn fun _ _ => True)
    (injective : ∀ entry other, rank entry = rank other -> id entry = id other)
    {store : Reference} {stored : Multiset Entry} (rep : RepresentsIn store stored)
    (distinct : Distinct id stored) (admissible : Admissible id stored operation)
    (least : operation = .removeNext -> ∃ entry, output = some entry ∧ Least rank entry stored)
    (nothing : operation ≠ .removeNext -> output = none) :
    ∃ next, reference.step store operation = some (next, output) ∧
      RepresentsIn next (operation.leaves stored output) := by
  obtain ⟨next, answer, stepped, represented, leastAnswer⟩ :=
    implements.step rep admissible trivial
  have same : answer = output := by
    cases operation with
    | insert entry | remove entry =>
      have silent : answer = none := by
        obtain ⟨_, -, same⟩ := map_eq_some_iff.mp stepped
        exact (congrArg Prod.snd same).symm
      rw [silent, nothing (by simp)]
    | removeNext =>
      obtain ⟨mine, rfl, leastMine⟩ := leastAnswer rfl
      obtain ⟨other, rfl, leastOther⟩ := least rfl
      rw [leastMine.unique injective distinct leastOther]
  subst same
  exact ⟨next, stepped, represented⟩

/-- One queue does what it should on the operations it is meant for, and has handed
out what the other has. -/
structure Agrees (id : Entry -> Id) (rank : Entry -> Rank) (queue : Queue Store Entry)
    (Represents : Store -> Multiset Entry -> Prop)
    (Meant : Comparison Store Reference Entry -> Operation Entry -> Prop)
    (both : Comparison Store Reference Entry) : Prop where
  represents : Represents both.store both.stored
  returns : ∀ operation, Admissible id both.stored operation -> Meant both operation ->
    (queue.step both.store operation).isSome
  peekNext : both.stored ≠ 0 -> ∃ entry, queue.peekNext both.store = some entry ∧ Least rank entry both.stored
  removeNext : both.stored ≠ 0 ->
    ∃ entry next, queue.removeNext both.store = some (entry, next) ∧ Least rank entry both.stored
  same : both.referenceReturned = both.returned

end Comparison

end PriorityQueue

end Ns3.Semantics
