import Ns3.Core.Scheduler.ListScheduler
import Ns3.Semantics.BinaryHeap

/-!
# The heap scheduler

`HeapScheduler` keeps its events in a binary heap of which the entry 0 is wasted.
`Remove` fills the hole with the last entry and moves it down only, so the order is
kept exactly where that entry is not smaller than the parent of the hole.
-/

namespace Ns3.Core.HeapScheduler

open Ns3.Semantics PriorityQueue BinaryHeap List Multiset Event

/-- The wasted entry. -/
def wasted : Event :=
  ⟨0, 0, 0, 0⟩

variable (heap : List Event)

/-- An entry of `m_heap`. -/
def entry (i : Nat) : Event :=
  heap.getD i wasted

/-- `Exch`, of two places of the heap. -/
def exch (a b : Nat) : List Event :=
  let tmp := entry heap a
  (heap.set a (entry heap b)).set b tmp

/-- `IsLessStrictly`. -/
def isLessStrictly (a b : Nat) : Bool :=
  (entry heap a).lt (entry heap b)

/-- `Smallest`. -/
def smallest (a b : Nat) : Nat :=
  if isLessStrictly heap a b then a else b

theorem not_isLessStrictly_self (a : Nat) : isLessStrictly heap a a = false := by
  rw [isLessStrictly, ← Bool.not_eq_true, lt_iff]
  exact lt_irrefl _

variable {a b i index hole : Nat}

theorem le_smallest (left : i ≤ a) (right : i ≤ b) : i ≤ smallest heap a b := by
  unfold smallest
  split
  · exact left
  · exact right

/-- The loop of `BottomUp`, from a place on. -/
def bottomUp (heap : List Event) (index : Nat) : List Event :=
  if climbs : index ≠ 1 ∧ isLessStrictly heap index (index / 2) then
    bottomUp (exch heap index (index / 2)) (index / 2)
  else
    heap
termination_by index
decreasing_by
  have positive : index ≠ 0 := by
    rintro rfl
    simp [not_isLessStrictly_self] at climbs
  omega

/-- `TopDown`, which is called with places from 1 on. -/
def topDown (heap : List Event) (index : Nat) (positive : 0 < index) : List Event :=
  if inside : 2 * index + 1 < heap.length then
    let tmp := smallest heap (2 * index) (2 * index + 1)
    if isLessStrictly heap index tmp then
      heap
    else
      topDown (exch heap index tmp) tmp (Nat.lt_of_lt_of_le positive (le_smallest heap (by omega) (by omega)))
  else if heap.length ≤ index then
    heap
  else if heap.length ≤ 2 * index then
    heap
  else if isLessStrictly heap index (2 * index) then
    heap
  else
    exch heap index (2 * index)
termination_by heap.length - index
decreasing_by
  have lower : index + 1 ≤ tmp := le_smallest heap (by omega) (by omega)
  simp only [exch, length_set]
  omega

/-- `Insert`. -/
def insert (ev : Event) : List Event :=
  bottomUp (heap ++ [ev]) heap.length

/-- The events without the wasted entry. -/
def contents : Multiset Event :=
  (heap.tail : Multiset Event)

/-- `RemoveNext`; `Exch` asserts that there is a root. -/
def removeNext : Option (Event × List Event) :=
  if heap.length ≤ 1 then
    none
  else
    some (entry heap 1, topDown (exch heap 1 (heap.length - 1)).dropLast 1 (by decide))

/-- The place `Remove` finds an event at. -/
def position (ev : Event) : Option Nat :=
  heap.tail.findIdx? fun other => other.uid = ev.uid

/-- `Remove`, which asserts that the event is there. -/
def remove (ev : Event) : Option (List Event) :=
  match position heap ev with
  | none => none
  | some before =>
    if (entry heap (before + 1)).impl = ev.impl then
      some (topDown (exch heap (before + 1) (heap.length - 1)).dropLast (before + 1) (Nat.succ_pos before))
    else
      none

def scheduler : Scheduler (List Event) where
  empty := [wasted]
  isEmpty := fun heap => heap.length == 1
  insert := fun heap ev => some (insert heap ev)
  remove := remove
  peekNext := fun heap => heap[1]?
  removeNext := removeNext

theorem length_exch (a b : Nat) : (exch heap a b).length = heap.length := by
  simp [exch]

variable {heap : List Event}

theorem entry_exch (insideA : a < heap.length) (insideB : b < heap.length) :
    entry (exch heap a b) = exchange (entry heap) a b := by
  funext i
  simp only [entry, exch, exchange]
  by_cases isB : b = i
  · by_cases isA : i = a
    · subst isB isA
      simp [insideA]
    · subst isB
      simp [insideB, isA]
  · by_cases isA : a = i
    · subst isA
      simp [insideA, isB]
    · simp [isB, isA, Ne.symm isA, Ne.symm isB]

theorem contents_exch (positiveA : 1 ≤ a) (positiveB : 1 ≤ b)
    (insideA : a < heap.length) (insideB : b < heap.length) : contents (exch heap a b) = contents heap := by
  match heap, a, b, positiveA, positiveB with
  | first :: rest, a + 1, b + 1, _, _ =>
    have insideA : a < rest.length := Nat.lt_of_succ_lt_succ insideA
    have insideB : b < rest.length := Nat.lt_of_succ_lt_succ insideB
    have swapped : (rest.toArray.swap a b insideA insideB).Perm rest.toArray :=
      Array.swap_perm insideA insideB
    apply coe_eq_coe.mpr
    simpa [exch, entry, insideA, insideB, getD_eq_getElem?_getD] using Array.perm_iff_toList_perm.mp swapped

/-- No entry of the array is smaller than its parent. -/
def HeapOrder (heap : List Event) : Prop :=
  Ordered Event.rank (entry heap) (heap.length - 1)

theorem rank_lt_of_isLessStrictly (less : isLessStrictly heap a b = true) : (entry heap a).rank < (entry heap b).rank :=
  lt_iff.mp less

theorem rank_le_of_not_isLessStrictly (notLess : ¬isLessStrictly heap a b = true) :
    (entry heap b).rank ≤ (entry heap a).rank :=
  not_lt.mp fun less => notLess (lt_iff.mpr less)

theorem bottomUp_spec (heap : List Event) (pos : 1 ≤ index) (inside : index < heap.length) :
    (bottomUp heap index).length = heap.length ∧ contents (bottomUp heap index) = contents heap ∧
        (UpOrdered rank (entry heap) (heap.length - 1) index -> HeapOrder (bottomUp heap index)) := by
  induction heap, index using bottomUp.induct with
  | case1 heap index climbs ih =>
    rw [bottomUp, dif_pos climbs]
    have parentInside : index / 2 < heap.length := by omega
    obtain ⟨length, sameContents, repairs⟩ := ih (by omega) (by rwa [length_exch])
    rw [length_exch] at length repairs
    rw [contents_exch pos (by omega) inside parentInside] at sameContents
    rw [entry_exch inside parentInside] at repairs
    exact ⟨length, sameContents, fun up => repairs (up.exchange (by omega) (by omega)
      (rank_lt_of_isLessStrictly climbs.2))⟩
  | case2 heap index stops =>
    rw [bottomUp, dif_neg stops]
    refine ⟨rfl, rfl, fun up => up.finish fun inner => ?_⟩
    exact rank_le_of_not_isLessStrictly fun less => stops ⟨by omega, less⟩

theorem smallest_spec (heap : List Event) (a b : Nat) : (smallest heap a b = a ∨ smallest heap a b = b) ∧
    (entry heap (smallest heap a b)).rank ≤ (entry heap a).rank ∧
      (entry heap (smallest heap a b)).rank ≤ (entry heap b).rank := by
  unfold smallest
  split
  · rename_i less
    exact ⟨.inl rfl, le_refl _, le_of_lt (rank_lt_of_isLessStrictly less)⟩
  · rename_i notLess
    exact ⟨.inr rfl, rank_le_of_not_isLessStrictly notLess, le_refl _⟩

theorem topDown_spec (heap : List Event) (pos : 0 < index) : (topDown heap index pos).length = heap.length ∧
    contents (topDown heap index pos) = contents heap ∧ (DownOrdered rank (entry heap) (heap.length - 1) index ->
        HeapOrder (topDown heap index pos)) := by
  induction heap, index, pos using topDown.induct with
  | case1 heap index pos inside tmp less =>
    rw [topDown, dif_pos inside, if_pos less]
    refine ⟨rfl, rfl, fun down => down.finish fun place inner known below => ?_⟩
    obtain ⟨-, leLeft, leRight⟩ := smallest_spec heap (2 * index) (2 * index + 1)
    have above := le_of_lt (rank_lt_of_isLessStrictly less)
    have child : place = 2 * index ∨ place = 2 * index + 1 := by omega
    rw [InOrder, below]
    rcases child with rfl | rfl
    · exact above.trans leLeft
    · exact above.trans leRight
  | case2 heap index pos inside tmp notLess ih =>
    rw [topDown, dif_pos inside, if_neg notLess]
    obtain ⟨isChild, leLeft, leRight⟩ := smallest_spec heap (2 * index) (2 * index + 1)
    have here : index < heap.length := by omega
    have below : tmp < heap.length := by omega
    obtain ⟨length, sameContents, repairs⟩ := ih
    rw [length_exch] at length repairs
    rw [contents_exch pos (by omega) here below] at sameContents
    rw [entry_exch here below] at repairs
    refine ⟨length, sameContents, fun down => repairs (down.exchange (by omega) (by omega) ?_
      (rank_le_of_not_isLessStrictly notLess))⟩
    intro place inner known child
    have known : place = 2 * index ∨ place = 2 * index + 1 := by omega
    rcases known with rfl | rfl
    · exact leLeft
    · exact leRight
  | case3 heap index pos outside bottom =>
    rw [topDown, dif_neg outside, if_pos bottom]
    exact ⟨rfl, rfl, fun down => down.finish fun place inner known below => by omega⟩
  | case4 heap index pos outside notBottom noChild =>
    rw [topDown, dif_neg outside, if_neg notBottom, if_pos noChild]
    exact ⟨rfl, rfl, fun down => down.finish fun place inner known below => by omega⟩
  | case5 heap index pos outside notBottom child less =>
    rw [topDown, dif_neg outside, if_neg notBottom, if_neg child, if_pos less]
    refine ⟨rfl, rfl, fun down => down.finish fun place inner known below => ?_⟩
    have only : place = 2 * index := by omega
    rw [InOrder, below, only]
    exact le_of_lt (rank_lt_of_isLessStrictly less)
  | case6 heap index pos outside notBottom child notLess =>
    rw [topDown, dif_neg outside, if_neg notBottom, if_neg child, if_neg notLess]
    have here : index < heap.length := by omega
    have below : 2 * index < heap.length := by omega
    refine ⟨length_exch heap _ _, contents_exch pos (by omega) here below, fun down => ?_⟩
    rw [HeapOrder, length_exch, entry_exch here below]
    have moved := down.exchange (show 2 * index / 2 = index by omega) (by omega) ?_
      (rank_le_of_not_isLessStrictly notLess)
    · exact moved.finish fun place inner known below => by omega
    · intro place inner known below
      have only : place = 2 * index := by omega
      rw [only]

variable {ev : Event}

theorem entry_append (inside : i < heap.length) : entry (heap ++ [ev]) i = entry heap i := by
  simp [entry, getElem?_append_left inside]

theorem entry_dropLast (inside : i < heap.length - 1) : entry heap.dropLast i = entry heap i := by
  rw [entry, entry, getD_eq_getElem?_getD, getD_eq_getElem?_getD, getElem?_dropLast, if_pos inside]

variable {first second : Nat -> Event} {size : Nat}

theorem ordered_congr (same : ∀ place ≤ size, first place = second place) (ordered : Ordered rank first size) :
    Ordered rank second size := by
  intro place inner inside
  rw [InOrder, ← same place inside, ← same (place / 2) (by omega)]
  exact ordered place inner inside

theorem downOrdered_congr
    (same : ∀ place ≤ size, first place = second place) (down : DownOrdered rank first size hole) :
    DownOrdered rank second size hole := by
  constructor
  · intro place inner inside notBelow
    rw [InOrder, ← same place inside, ← same (place / 2) (by omega)]
    exact down.others place inner inside notBelow
  · intro inner place inside below
    rw [← same place inside, ← same (hole / 2) (by omega)]
    exact down.bridged inner place inside below

theorem insert_spec (ev : Event) (nonempty : heap ≠ []) (ordered : HeapOrder heap) :
    insert heap ev ≠ [] ∧ HeapOrder (insert heap ev) ∧
      contents (insert heap ev) = ev ::ₘ contents heap := by
  have pos : 1 ≤ heap.length := length_pos_iff.mpr nonempty
  obtain ⟨length, sameContents, repairs⟩ :=
    bottomUp_spec (heap ++ [ev]) pos (by simp)
  refine ⟨fun empty => ?_, repairs ?_, ?_⟩
  · rw [insert] at empty
    simp [empty] at length
  · have before : Ordered rank (entry (heap ++ [ev])) (heap.length - 1) :=
      ordered_congr (fun place inside => (entry_append (by omega)).symm) ordered
    have appended := before.append heap.length (by omega)
    simpa using appended
  · rw [insert, sameContents, contents, contents, tail_append_of_ne_nil nonempty,
      coe_eq_coe.mpr perm_append_comm]
    rfl

/-- The array after the entry at a place is replaced by the last one. -/
def filled (heap : List Event) (hole : Nat) : List Event :=
  (exch heap hole (heap.length - 1)).dropLast

theorem length_filled (heap : List Event) (hole : Nat) : (filled heap hole).length = heap.length - 1 := by
  simp [filled, length_exch]

theorem entry_filled {place : Nat} (inside : hole < heap.length) (known : place < heap.length - 1) :
    entry (filled heap hole) place = exchange (entry heap) hole (heap.length - 1) place := by
  rw [filled, entry_dropLast (by rwa [length_exch]), entry_exch inside (by omega)]

theorem contents_dropLast (heap : List Event) (long : 1 < heap.length) :
    contents heap = entry heap (heap.length - 1) ::ₘ contents heap.dropLast := by
  match heap, long with
  | first :: rest, long =>
    cases rest using reverseRecOn with
    | nil => exact absurd long (Nat.lt_irrefl 1)
    | append_singleton others last =>
      have atEnd : entry (first :: (others ++ [last])) (others.length + 1) = last := by
        simp [entry]
      have shorter : (first :: (others ++ [last])).dropLast = first :: others := by
        rw [← cons_append, dropLast_concat]
      rw [shorter]
      simp only [length_cons, length_append, length_nil, Nat.add_sub_cancel]
      rw [atEnd]
      exact coe_eq_coe.mpr perm_append_comm

theorem contents_filled (pos : 1 ≤ hole) (inside : hole < heap.length) :
    contents (filled heap hole) = (contents heap).erase (entry heap hole) := by
  have last : entry (exch heap hole (heap.length - 1)) (heap.length - 1) = entry heap hole := by
    rw [entry_exch inside (by omega), exchange_right]
  have split := contents_dropLast (exch heap hole (heap.length - 1)) (by rw [length_exch]; omega)
  rw [length_exch, last, contents_exch pos (by omega) inside (by omega)] at split
  rw [split, Multiset.erase_cons_head, filled]

/-- The last entry is not smaller than the parent of the hole it fills. -/
def Fills (heap : List Event) (hole : Nat) : Prop :=
  2 ≤ hole -> hole < heap.length - 1 -> (entry heap (hole / 2)).rank ≤ (entry heap (heap.length - 1)).rank

theorem topDown_stays (pos : 0 < index) (smaller : ∀ place < heap.length, place / 2 = index ->
    (entry heap index).rank < (entry heap place).rank) : topDown heap index pos = heap := by
  have less : ∀ place < heap.length, place / 2 = index -> isLessStrictly heap index place = true :=
    fun place inside below => lt_iff.mpr (smaller place inside below)
  rw [topDown]
  split
  · rename_i inside
    have isChild := (smallest_spec heap (2 * index) (2 * index + 1)).1
    exact if_pos (less _ (by omega) (by omega))
  · split
    · rfl
    · split
      · rfl
      · rw [if_pos (less _ (by omega) (by omega))]

/-- Filling a hole keeps the order exactly when the last entry fits under the parent
of the hole: `TopDown` never moves an entry up. -/
theorem topDown_filled (pos : 0 < hole) (inside : hole < heap.length) (ordered : HeapOrder heap) :
    topDown (filled heap hole) hole pos ≠ [] ∧
      contents (topDown (filled heap hole) hole pos) =
        (contents heap).erase (entry heap hole) ∧
      (HeapOrder (topDown (filled heap hole) hole pos) ↔ Fills heap hole) := by
  obtain ⟨length, sameContents, repairs⟩ := topDown_spec (filled heap hole) pos
  rw [length_filled] at length repairs
  refine ⟨?_, sameContents.trans (contents_filled pos inside), ?_, ?_⟩
  · rw [← length_pos_iff, length]
    omega
  · intro next inner notLast
    by_contra above
    have smaller := not_le.mp above
    have stays : topDown (filled heap hole) hole pos = filled heap hole := by
      refine topDown_stays pos fun place known below => ?_
      rw [length_filled] at known
      rw [entry_filled inside (by omega), entry_filled inside known, exchange_left,
        exchange_other (by omega) (by omega)]
      have parent := ordered hole inner (by omega)
      have child := ordered place (by omega) (by omega)
      rw [InOrder, below] at child
      exact smaller.trans_le (le_trans parent child)
    rw [stays, HeapOrder, length_filled] at next
    have broken := next hole inner (by omega)
    rw [InOrder, entry_filled inside (by omega), entry_filled inside (by omega), exchange_left,
      exchange_other (by omega) (by omega)] at broken
    exact above broken
  · intro fills
    apply repairs
    by_cases last : hole = heap.length - 1
    · constructor
      · intro place inner known notBelow
        rw [InOrder, entry_filled inside (by omega), entry_filled inside (by omega), last,
          exchange_self]
        exact ordered place inner (by omega)
      · intro inner place known below
        omega
    · have size : heap.length - 1 = heap.length - 2 + 1 := by omega
      have whole : Ordered rank (entry heap) (heap.length - 2 + 1) := by
        rw [← size]
        exact ordered
      have down := whole.fill (show hole ≤ heap.length - 2 by omega) (by
        rw [← size]
        exact fun inner => fills inner (by omega))
      rw [← size] at down
      exact downOrdered_congr (fun place known => (entry_filled inside (by omega)).symm) down

theorem position_spec (stored : ev ∈ contents heap) (distinct : Distinct uid (contents heap)) :
    ∃ before, position heap ev = some before ∧ entry heap (before + 1) = ev ∧ before + 1 < heap.length := by
  cases found : position heap ev with
  | none =>
    rw [position, findIdx?_eq_none_iff] at found
    simpa using found ev stored
  | some before =>
    rw [position, findIdx?_eq_some_iff_getElem] at found
    obtain ⟨inside, same, -⟩ := found
    have here : entry heap (before + 1) = heap.tail[before] := by
      rw [entry, getD_eq_getElem?_getD, getElem_tail, getElem?_eq_getElem]
      rfl
    refine ⟨before, rfl, ?_, by rw [length_tail] at inside; omega⟩
    rw [here]
    exact distinct _ (getElem_mem inside) ev stored (by simpa using same)

/-- The array holds the stored events, in heap order. -/
structure Represents (heap : List Event) (stored : Multiset Event) : Prop where
  nonempty : heap ≠ []
  order : HeapOrder heap
  contents : contents heap = stored

/-- An event other than the wasted one is at some place. -/
theorem entry_of_mem (mem : ev ∈ contents heap) :
    ∃ place, 1 ≤ place ∧ place ≤ heap.length - 1 ∧ entry heap place = ev := by
  obtain ⟨before, inside, rfl⟩ := getElem_of_mem (mem_coe.mp mem)
  refine ⟨before + 1, by omega, by rw [length_tail] at inside; omega, ?_⟩
  rw [entry, getD_eq_getElem?_getD, getElem_tail, getElem?_eq_getElem]
  rfl

variable {stored : Multiset Event}

theorem Represents.root (rep : Represents heap stored) (nonempty : stored ≠ 0) :
    1 < heap.length ∧ heap[1]? = some (entry heap 1) ∧ Least rank (entry heap 1) stored := by
  obtain ⟨other, mem⟩ := exists_mem_of_ne_zero nonempty
  rw [← rep.contents] at mem ⊢
  obtain ⟨place, pos, inside, -⟩ := entry_of_mem mem
  have long : 1 < heap.length := by omega
  refine ⟨long, by simp [entry, getD_eq_getElem?_getD, long], ?_, fun one known => ?_⟩
  · match heap, long with
    | first :: root :: rest, _ => exact mem_cons_self
  · obtain ⟨place, pos, inside, rfl⟩ := entry_of_mem known
    exact rep.order.root_least pos inside

theorem removeNext_spec (rep : Represents heap stored) (nonempty : stored ≠ 0) :
    ∃ next, removeNext heap = some (entry heap 1, next) ∧
      Least rank (entry heap 1) stored ∧ Represents next (stored.erase (entry heap 1)) := by
  obtain ⟨long, -, least⟩ := rep.root nonempty
  obtain ⟨rest, sameContents, order⟩ := topDown_filled (by decide) long rep.order
  refine ⟨_, if_neg (by omega), least, rest, order.mpr fun inner => ?_, ?_⟩
  · omega
  · rw [← rep.contents]
    exact sameContents

/-- A `Remove` fills its hole with an entry that is not smaller than the parent of
the hole. -/
def FillsHole (heap : List Event) : Operation Event -> Prop
  | .remove ev => ∀ before, position heap ev = some before -> Fills heap (before + 1)
  | _ => True

theorem step_spec {operation : Operation Event} (rep : Represents heap stored) (distinct : Distinct uid stored)
    (admissible : Admissible uid stored operation) :
    ∃ next output, scheduler.step heap operation = some (next, output) ∧ next ≠ [] ∧
      contents next = operation.leaves stored output ∧ (HeapOrder next ↔ FillsHole heap operation) ∧
          (operation = .removeNext -> ∃ first, output = some first ∧ Least rank first stored) ∧
          (operation ≠ .removeNext -> output = none) := by
  obtain rfl := rep.contents
  cases operation with
  | insert ev =>
    obtain ⟨rest, order, sameContents⟩ := insert_spec ev rep.nonempty rep.order
    exact ⟨_, none, rfl, rest, sameContents, iff_of_true order trivial, by simp, by simp⟩
  | remove ev =>
    obtain ⟨before, found, rfl, inside⟩ := position_spec admissible distinct
    obtain ⟨rest, sameContents, order⟩ :=
      topDown_filled (Nat.succ_pos before) inside rep.order
    refine ⟨_, none, by simp [Queue.step, scheduler, remove, found]; rfl, rest, sameContents,
      order.trans ?_, by simp, by simp⟩
    simp [FillsHole, found]
  | removeNext =>
    obtain ⟨next, removed, least, nextRepresents⟩ := removeNext_spec rep admissible
    exact ⟨next, some (entry heap 1), by simp [Queue.step, scheduler, removed],
      nextRepresents.nonempty, nextRepresents.contents,
      iff_of_true nextRepresents.order trivial, fun _ => ⟨_, rfl, least⟩, by simp⟩

/-- The heap scheduler is a priority queue, and has handed out what the list
scheduler has. -/
def IsPriorityQueue (both : Comparison (List Event) (List Event) Event) : Prop :=
  Agrees Event.uid Event.rank scheduler Represents (fun _ _ => True) both

theorem agrees_of_represents {both : Comparison (List Event) (List Event) Event}
    (represents : Represents both.store both.stored) (distinct : Distinct uid both.stored)
    (same : both.referenceReturned = both.returned) : IsPriorityQueue both where
  represents := represents
  returns := fun operation admissible _ => by
    obtain ⟨next, output, stepped, -⟩ := step_spec represents distinct admissible
    rw [stepped]
    rfl
  peekNext := fun nonempty => ⟨_, (represents.root nonempty).2⟩
  removeNext := fun nonempty => by
    obtain ⟨next, removed, least, -⟩ := removeNext_spec represents nonempty
    exact ⟨_, next, removed, least⟩
  same := same

/-- In a run on admissible operations the array keeps the heap order, stores exactly
the events inserted and not removed, and hands out the least event each time, as the
list scheduler does, exactly when no `Remove` fills its hole with an entry that is
smaller than the parent of the hole. -/
theorem heapScheduler_iff {trace : List (Comparison (List Event) (List Event) Event ×
      Operation Event)} {both : Comparison (List Event) (List Event) Event}
    (run : (sideBySide scheduler ListScheduler.scheduler Event.uid).Run trace both) :
    ((∀ step ∈ trace, IsPriorityQueue step.1) ∧ IsPriorityQueue both) ↔
      ∀ step ∈ trace, FillsHole step.1.store step.2 := by
  refine System.Run.always_iff (fun both => Distinct Event.uid both.stored ∧
      ∃ list, both.reference = some list ∧ ListScheduler.Represents list both.stored)
    IsPriorityQueue (fun _ _ => True)
    (fun both operation => FillsHole both.store operation) ?_ ?_ run (fun _ _ => trivial)
  · rintro both rfl
    refine ⟨⟨fun _ member => absurd member (Multiset.notMem_zero _), _, rfl,
      ListScheduler.implements.empty⟩, agrees_of_represents ⟨by simp [scheduler], ?_, rfl⟩
        (fun _ member => absurd member (Multiset.notMem_zero _)) rfl⟩
    intro place inner inside
    simp [scheduler] at inside
    omega
  · rintro both operation next ⟨distinct, list, reference, represents⟩ agrees - transition
    obtain ⟨admissible, store, output, stepped, rfl, stored, returned, answered⟩ :=
      sideBySide_step transition
    obtain ⟨_, _, known, rest, sameContents, order, least, silent⟩ :=
      step_spec agrees.represents distinct admissible
    cases stepped.symm.trans known
    obtain ⟨nextList, answer, nextRepresents⟩ := ListScheduler.implements.answers
      (fun _ _ => Event.uid_eq_of_rank) represents distinct admissible least silent
    obtain ⟨nextReference, nextReturned⟩ := answered (some (nextList, output)) (by rw [reference]; exact answer)
    have nextSame : next.referenceReturned = next.returned := by
      rw [nextReturned, returned, agrees.same]
      rfl
    have nextDistinct : Distinct Event.uid next.stored := by
      rw [stored]
      exact distinct.leaves admissible output
    refine ⟨order.symm.trans ?_ |>.symm, fun _ => ⟨nextDistinct, nextList, nextReference, ?_⟩⟩
    · exact ⟨fun ordered => agrees_of_represents ⟨rest, ordered, sameContents.trans stored.symm⟩
        nextDistinct nextSame, fun after => after.represents.order⟩
    · rw [stored]
      exact nextRepresents

/-- The hole the event at 11 leaves under the one at 10 is filled with the one at 3. -/
def hidden : List (Operation Event) :=
  [.insert (eventAt 1 5), .insert (eventAt 10 6), .insert (eventAt 2 7), .insert (eventAt 11 8),
    .insert (eventAt 12 9), .insert (eventAt 20 10), .insert (eventAt 3 11), .remove (eventAt 11 8),
    .removeNext, .removeNext, .removeNext]

theorem hidden_run : ∃ both, (sideBySide scheduler ListScheduler.scheduler uid).Run
    ((sideBySide scheduler ListScheduler.scheduler uid).steps ⟨[wasted], some [], 0, [], []⟩ hidden) both ∧
    both.returned = [eventAt 1 5, eventAt 2 7, eventAt 10 6] ∧
      both.referenceReturned = [eventAt 1 5, eventAt 2 7, eventAt 3 11] := by
  have handedOut : ((sideBySide scheduler ListScheduler.scheduler uid).exec ⟨[wasted], some [], 0, [], []⟩ hidden).map
        (fun both => (both.returned, both.referenceReturned)) =
          some ([eventAt 1 5, eventAt 2 7, eventAt 10 6], [eventAt 1 5, eventAt 2 7, eventAt 3 11]) := by
    decide +kernel
  obtain ⟨both, executed, same⟩ := Option.map_eq_some_iff.mp handedOut
  exact ⟨both, System.run_of_exec rfl executed, (Prod.mk.inj same).1, (Prod.mk.inj same).2⟩

theorem hidden_heapScheduler_iff : ∃ trace both,
    (sideBySide scheduler ListScheduler.scheduler Event.uid).Run trace both ∧
      (((∀ step ∈ trace, IsPriorityQueue step.1) ∧ IsPriorityQueue both) ↔
        ∀ step ∈ trace, FillsHole step.1.store step.2) := by
  obtain ⟨both, run, -⟩ := hidden_run
  exact ⟨_, both, run, heapScheduler_iff run⟩

/-- After a `Remove` the event at 10 is handed out before the one at 3. -/
theorem removal_hides_event : ∃ trace both, (sideBySide scheduler ListScheduler.scheduler Event.uid).Run trace both ∧
    ¬((∀ step ∈ trace, IsPriorityQueue step.1) ∧ IsPriorityQueue both) := by
  obtain ⟨both, run, mine, other⟩ := hidden_run
  refine ⟨_, both, run, fun agrees => ?_⟩
  have same := agrees.2.same
  rw [mine, other] at same
  exact absurd same (by decide)

end Ns3.Core.HeapScheduler
