import Mathlib.Data.List.Basic
import Ns3.Semantics.Run

/-!
# Deadlines

Keys that begin, and either end in time or expire. In a list of deadlines that share wake-ups, it is
enough that one of these comes no later than the first deadline. `Timely` says that a key expires
exactly some time after it began, if it has not ended until then.
-/

namespace Ns3.Semantics

open List

universe u v w

/-- Deadlines in order, none of them past, with a wake-up that comes before all of them. -/
structure Covered (deadlines wakeups : List Int) (now : Int) : Prop where
  sorted : deadlines.Pairwise (· ≤ ·)
  notPast : ∀ deadline ∈ deadlines, now ≤ deadline
  woken : deadlines ≠ [] -> ∃ wakeup ∈ wakeups, ∀ deadline ∈ deadlines, wakeup ≤ deadline

namespace Covered

variable {deadlines kept wakeups more : List Int} {now time deadline : Int}

theorem nil (wakeups : List Int) (now : Int) : Covered [] wakeups now where
  sorted := .nil
  notPast := fun _ mem => nomatch mem
  woken := fun notEmpty => absurd rfl notEmpty

section

variable (covered : Covered deadlines wakeups now)
include covered

/-- Deadlines may be given up. -/
theorem sublist (fewer : kept.Sublist deadlines) : Covered kept wakeups now where
  sorted := covered.sorted.sublist fewer
  notPast := fun deadline mem => covered.notPast deadline (fewer.subset mem)
  woken := by
    intro notEmpty
    obtain ⟨wakeup, isWakeup, early⟩ := covered.woken fun empty => notEmpty (sublist_nil.mp (empty ▸ fewer))
    exact ⟨wakeup, isWakeup, fun deadline mem => early deadline (fewer.subset mem)⟩

/-- Time may pass up to the next wake-up. -/
theorem advance (upTo : ∀ wakeup ∈ wakeups, time ≤ wakeup) : Covered deadlines wakeups time where
  sorted := covered.sorted
  notPast := by
    intro deadline mem
    obtain ⟨wakeup, isWakeup, early⟩ := covered.woken (ne_nil_of_mem mem)
    exact Int.le_trans (upTo wakeup isWakeup) (early deadline mem)
  woken := covered.woken

/-- A last deadline needs no wake-up of its own if there are others. -/
theorem append_of_ne_nil (notEmpty : deadlines ≠ [])
    (last : ∀ other ∈ deadlines, other ≤ deadline) : Covered (deadlines ++ [deadline]) wakeups now where
  sorted := by
    refine pairwise_append.mpr ⟨covered.sorted, pairwise_singleton _ _, fun other mem latest isLatest => ?_⟩
    obtain rfl := mem_singleton.mp isLatest
    exact last other mem
  notPast := by
    obtain ⟨first, isFirst⟩ := exists_mem_of_ne_nil deadlines notEmpty
    intro other mem
    obtain old | new := mem_append.mp mem
    · exact covered.notPast other old
    · obtain rfl := mem_singleton.mp new
      exact Int.le_trans (covered.notPast first isFirst) (last first isFirst)
  woken := by
    intro _
    obtain ⟨first, isFirst⟩ := exists_mem_of_ne_nil deadlines notEmpty
    obtain ⟨wakeup, isWakeup, early⟩ := covered.woken notEmpty
    refine ⟨wakeup, isWakeup, fun other mem => ?_⟩
    obtain old | new := mem_append.mp mem
    · exact early other old
    · obtain rfl := mem_singleton.mp new
      exact Int.le_trans (early first isFirst) (last first isFirst)

end

/-- A wake-up at the first deadline covers them all. -/
theorem of_head (sorted : (deadline :: deadlines).Pairwise (· ≤ ·)) (notPast : now ≤ deadline)
    (isWakeup : deadline ∈ wakeups) : Covered (deadline :: deadlines) wakeups now where
  sorted := sorted
  notPast := by
    intro other mem
    obtain rfl | later := mem_cons.mp mem
    · exact notPast
    · exact Int.le_trans notPast ((pairwise_cons.mp sorted).1 other later)
  woken := by
    refine fun _ => ⟨deadline, isWakeup, fun other mem => ?_⟩
    obtain rfl | later := mem_cons.mp mem
    · exact Int.le_refl _
    · exact (pairwise_cons.mp sorted).1 other later

end Covered

/-- A key begins, and later it either ends, with some result, or expires. -/
inductive Happening (Result : Type v) (Loss : Type w) where
  | begun
  | ended (result : Result)
  | expired (loss : Loss)

structure Record (Key : Type u) (Result : Type v) (Loss : Type w) where
  time : Int
  key : Key
  what : Happening Result Loss

namespace Record

variable {Key : Type u} {Result : Type v} {Loss : Type w} [DecidableEq Key] {records : List (Record Key Result Loss)}
  {record : Record Key Result Loss} {key : Key} {period since now time : Int}

/-- Since when the key of a record is open after it. -/
def opens (record : Record Key Result Loss) : Option Int :=
  match record.what with
  | .begun => some record.time
  | .ended _ => none
  | .expired _ => none

/-- Since when a key is open. -/
def openSince (records : List (Record Key Result Loss)) (key : Key) : Option Int :=
  records.foldl (fun since record => if record.key = key then record.opens else since) none

theorem openSince_append (records : List (Record Key Result Loss)) (record : Record Key Result Loss) (key : Key) :
    openSince (records ++ [record]) key = if record.key = key then record.opens else openSince records key := by
  rw [openSince, foldl_append]
  rfl

/-- A key begins when it is not open, ends in time, and expires on time. -/
def Fits (period : Int) (earlier : List (Record Key Result Loss)) (record : Record Key Result Loss) : Prop :=
  match record.what with
  | .begun => openSince earlier record.key = none
  | .ended _ => ∃ since, openSince earlier record.key = some since ∧ record.time ≤ since + period
  | .expired _ => ∃ since, openSince earlier record.key = some since ∧ record.time = since + period

/-- Every record fits, and no key is open for longer than it may be. -/
structure Timely (period : Int) (records : List (Record Key Result Loss)) (now : Int) : Prop where
  fits : Throughout (Fits period) records
  pending : ∀ key since, openSince records key = some since -> now ≤ since + period

/-- What becomes of a key that began: it is still open, and its time has not passed, or it ended
before that, or it expired exactly then. -/
def Exact (period : Int) (start : Record Key Result Loss) (later : List (Record Key Result Loss)) (now : Int) : Prop :=
  (∀ record ∈ later, record.key ≠ start.key) ∧ now ≤ start.time + period ∨
    ∃ others next rest, later = others ++ next :: rest ∧ (∀ record ∈ others, record.key ≠ start.key) ∧
      next.key = start.key ∧ ((∃ result, next.what = .ended result ∧ next.time ≤ start.time + period) ∨
          ∃ loss, next.what = .expired loss ∧ next.time = start.time + period)

/-- Records of other keys leave a key open. -/
theorem openSince_append_of_ne {others : List (Record Key Result Loss)}
    (others_ne : ∀ record ∈ others, record.key ≠ key) :
    openSince (records ++ others) key = openSince records key := by
  induction others using reverseRecOn with
  | nil => rw [append_nil]
  | append_singleton others last ih =>
    rw [← append_assoc, openSince_append, if_neg (others_ne last (by simp))]
    exact ih fun record mem => others_ne record (mem_append_left _ mem)

theorem Timely.exact {earlier later : List (Record Key Result Loss)}
    (timely : Timely period (earlier ++ record :: later) now)
    (begun : record.what = .begun) : Exact period record later now := by
  have isOpen : openSince (earlier ++ [record]) record.key = some record.time := by
    rw [openSince_append, if_pos rfl, opens, begun]
  cases isNext : later.find? fun other => other.key = record.key with
  | none =>
    have untold : ∀ other ∈ later, other.key ≠ record.key := by
      intro other mem same
      exact find?_eq_none.mp isNext other mem (decide_eq_true same)
    refine Or.inl ⟨untold, timely.pending record.key record.time ?_⟩
    rw [append_cons, openSince_append_of_ne untold]
    exact isOpen
  | some next =>
    obtain ⟨same, others, rest, rfl, before⟩ := find?_eq_some_iff_append.mp isNext
    have isKey : next.key = record.key := of_decide_eq_true same
    have untold : ∀ other ∈ others, other.key ≠ record.key := by
      intro other mem same
      exact absurd (before other mem) (by simp [same])
    have stillOpen : openSince (earlier ++ record :: others) next.key = some record.time := by
      rw [append_cons, isKey, openSince_append_of_ne untold]
      exact isOpen
    have fits : Fits period (earlier ++ record :: others) next :=
      timely.fits (earlier ++ record :: others) next rest (by simp)
    refine Or.inr ⟨others, next, rest, rfl, untold, isKey, ?_⟩
    unfold Fits at fits
    rw [stillOpen] at fits
    cases isWhat : next.what with
    | begun =>
      rw [isWhat] at fits
      cases fits
    | ended result =>
      rw [isWhat] at fits
      obtain ⟨since, isSince, inTime⟩ := fits
      cases isSince
      exact Or.inl ⟨result, rfl, inTime⟩
    | expired loss =>
      rw [isWhat] at fits
      obtain ⟨since, isSince, onTime⟩ := fits
      cases isSince
      exact Or.inr ⟨loss, rfl, onTime⟩

end Record

end Ns3.Semantics
