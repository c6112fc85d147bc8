import Mathlib.Data.List.Basic
import Mathlib.Data.List.TakeWhile

/-!
# Reorder buffers

A receiver that passes items on in the order of their numbers. It holds what arrived too early,
passes on what follows without a gap from the number it waits for, and gives that number up when an
item arrives that is too far ahead or when it is told to. Numbers are unbounded here.
-/

namespace Ns3.Semantics

open List

universe u

/-- The number that is waited for, and the items that wait, in order. -/
structure ReorderBuffer (Item : Type u) where
  start : Int
  held : List (Int × Item)

/-- What is passed on, and what is left. -/
structure Release (Item : Type u) where
  passed : List (Int × Item)
  left : ReorderBuffer Item

namespace ReorderBuffer

variable {Item : Type u} {start bound size : Int} {held : List (Int × Item)} {entry : Int × Item}
  {buffer : ReorderBuffer Item}

/-- Hold an item, unless there is one with its number. -/
def hold (entry : Int × Item) : List (Int × Item) -> List (Int × Item)
  | [] => [entry]
  | it :: rest => if entry.1 < it.1 then entry :: it :: rest
      else if it.1 < entry.1 then it :: hold entry rest else it :: rest

/-- Pass on what follows without a gap. -/
def releaseRun (start : Int) : List (Int × Item) -> Release Item
  | [] => ⟨[], ⟨start, []⟩⟩
  | it :: rest =>
    if it.1 = start then
      let further := releaseRun (start + 1) rest
      ⟨it :: further.passed, further.left⟩
    else ⟨[], ⟨start, it :: rest⟩⟩

/-- Pass on what has a lower number, with gaps, and then what follows without one. -/
def releaseTo (bound : Int) (held : List (Int × Item)) : Release Item :=
  let further := releaseRun bound (held.dropWhile (·.1 < bound))
  ⟨held.takeWhile (·.1 < bound) ++ further.passed, further.left⟩

/-- An item arrives. -/
def accept (size : Int) (entry : Int × Item) (buffer : ReorderBuffer Item) : Release Item :=
  if entry.1 < buffer.start then ⟨[], buffer⟩
  else if entry.1 < buffer.start + size then releaseRun buffer.start (hold entry buffer.held)
  else releaseTo (entry.1 - size + 1) (hold entry buffer.held)

/-- Numbers below a bound are given up. -/
def moveTo (bound : Int) (buffer : ReorderBuffer Item) : Release Item :=
  if bound ≤ buffer.start then ⟨[], buffer⟩ else releaseTo bound buffer.held

/-- Each number is held once, in order, from the one that is waited for on. -/
structure Ordered (size : Int) (buffer : ReorderBuffer Item) : Prop where
  increasing : buffer.held.Pairwise fun first second => first.1 < second.1
  within : ∀ entry ∈ buffer.held, buffer.start ≤ entry.1 ∧ entry.1 < buffer.start + size

/-- What is passed on comes first, and is what is below the number that is waited for then. -/
structure Released (start : Int) (held : List (Int × Item)) (release : Release Item) : Prop where
  whole : release.passed ++ release.left.held = held
  forwards : start ≤ release.left.start
  passed : ∀ entry ∈ release.passed, entry.1 < release.left.start
  left : ∀ entry ∈ release.left.held, release.left.start ≤ entry.1

theorem mem_of_mem_hold {other : Int × Item} (mem : other ∈ hold entry held) : other = entry ∨ other ∈ held := by
  induction held with
  | nil => exact .inl (mem_singleton.mp mem)
  | cons it rest ih =>
    rw [hold] at mem
    split at mem
    · exact mem_cons.mp mem
    · split at mem
      · rcases mem_cons.mp mem with rfl | inRest
        · exact .inr mem_cons_self
        · exact (ih inRest).imp id (mem_cons_of_mem _)
      · exact .inr mem

theorem mem_hold_of_mem {other : Int × Item} (mem : other ∈ held) : other ∈ hold entry held := by
  induction held with
  | nil => cases mem
  | cons it rest ih =>
    rw [hold]
    split
    · exact mem_cons_of_mem _ mem
    · split
      · rcases mem_cons.mp mem with rfl | inRest
        · exact mem_cons_self
        · exact mem_cons_of_mem _ (ih inRest)
      · exact mem

/-- An item is held if its number is new. -/
theorem mem_hold_self (new : ∀ other ∈ held, other.1 ≠ entry.1) : entry ∈ hold entry held := by
  induction held with
  | nil => exact mem_singleton_self _
  | cons it rest ih =>
    rw [hold]
    split
    · exact mem_cons_self
    next notBefore =>
      have after : it.1 < entry.1 := by
        have ne := new it mem_cons_self
        omega
      rw [if_pos after]
      exact mem_cons_of_mem _ (ih fun other mem => new other (mem_cons_of_mem _ mem))

theorem hold_increasing (increasing : held.Pairwise fun first second => first.1 < second.1) :
    (hold entry held).Pairwise fun first second => first.1 < second.1 := by
  induction held with
  | nil => exact pairwise_singleton _ _
  | cons it rest ih =>
    obtain ⟨least, increasingRest⟩ := pairwise_cons.mp increasing
    rw [hold]
    split
    next before =>
      refine pairwise_cons.mpr ⟨fun other mem => ?_, increasing⟩
      rcases mem_cons.mp mem with rfl | inRest
      · exact before
      · exact Int.lt_trans before (least other inRest)
    · split
      next after =>
        refine pairwise_cons.mpr ⟨fun other mem => ?_, ih increasingRest⟩
        rcases mem_of_mem_hold mem with rfl | inRest
        · exact after
        · exact least other inRest
      · exact increasing

theorem released_releaseRun (increasing : held.Pairwise fun first second => first.1 < second.1)
    (within : ∀ entry ∈ held, start ≤ entry.1) : Released start held (releaseRun start held) := by
  induction held generalizing start with
  | nil =>
    exact ⟨rfl, Int.le_refl _, fun _ mem => absurd mem not_mem_nil, fun _ mem => absurd mem not_mem_nil⟩
  | cons it rest ih =>
    obtain ⟨least, increasingRest⟩ := pairwise_cons.mp increasing
    rw [releaseRun]
    split
    next here =>
      have further := @ih (start + 1) increasingRest (fun other mem => by
        have later := least other mem
        omega)
      refine ⟨congrArg (it :: ·) further.whole, ?_, fun other mem => ?_, further.left⟩
      · have forwards := further.forwards
        exact Int.le_trans (by omega) forwards
      · rcases mem_cons.mp mem with rfl | later
        · have forwards := further.forwards
          exact Int.lt_of_lt_of_le (by omega) forwards
        · exact further.passed other later
    · exact ⟨rfl, Int.le_refl _, fun _ mem => absurd mem not_mem_nil, within⟩

/-- A run ends at the latest behind all items. -/
theorem releaseRun_le (below : ∀ entry ∈ held, entry.1 < bound) (atMost : start ≤ bound) :
    (releaseRun start held).left.start ≤ bound := by
  induction held generalizing start with
  | nil => exact atMost
  | cons it rest ih =>
    rw [releaseRun]
    split
    next here =>
      have less := below it mem_cons_self
      exact ih (fun other mem => below other (mem_cons_of_mem _ mem)) (by omega)
    · exact atMost

theorem dropWhile_ge (increasing : held.Pairwise fun first second => first.1 < second.1) :
    ∀ entry ∈ held.dropWhile (·.1 < bound), bound ≤ entry.1 := by
  induction held with
  | nil => exact fun _ mem => nomatch mem
  | cons it rest ih =>
    obtain ⟨least, increasingRest⟩ := pairwise_cons.mp increasing
    rw [dropWhile_cons]
    split
    · exact ih increasingRest
    next notBelow =>
      have atLeast : bound ≤ it.1 := by simpa using notBelow
      intro other mem
      rcases mem_cons.mp mem with rfl | inRest
      · exact atLeast
      · exact Int.le_of_lt (Int.lt_of_le_of_lt atLeast (least other inRest))

theorem released_releaseTo (increasing : held.Pairwise fun first second => first.1 < second.1)
    (forwards : start ≤ bound) : Released start held (releaseTo bound held) := by
  have further := @released_releaseRun Item bound (held.dropWhile (·.1 < bound))
    (increasing.sublist (dropWhile_sublist _)) (dropWhile_ge increasing)
  refine ⟨?_, Int.le_trans forwards further.forwards, fun entry mem => ?_, further.left⟩
  · rw [releaseTo, append_assoc, further.whole, takeWhile_append_dropWhile]
  · rcases mem_append.mp mem with below | later
    · have less : entry.1 < bound := by simpa using mem_takeWhile_imp below
      exact Int.lt_of_lt_of_le less further.forwards
    · exact further.passed entry later

theorem releaseTo_le {limit : Int} (below : ∀ entry ∈ held, entry.1 < limit) (atMost : bound ≤ limit) :
    (releaseTo bound held).left.start ≤ limit :=
  releaseRun_le (fun entry mem => below entry ((dropWhile_sublist _).subset mem)) atMost

/-- A run leaves nothing exactly if no number is missing from where it starts. -/
theorem releaseRun_left_eq_nil_iff (increasing : held.Pairwise fun first second => first.1 < second.1)
    (within : ∀ entry ∈ held, start ≤ entry.1) : (releaseRun start held).left.held = [] ↔
      ∀ entry ∈ held, ∀ number, start ≤ number -> number ≤ entry.1 -> ∃ other ∈ held, other.1 = number := by
  induction held generalizing start with
  | nil => exact iff_of_true rfl fun _ mem => nomatch mem
  | cons it rest ih =>
    obtain ⟨least, increasingRest⟩ := pairwise_cons.mp increasing
    rw [releaseRun]
    split
    next here =>
      rw [ih increasingRest fun other mem => by
        have later := least other mem
        omega]
      constructor
      · intro noGap entry mem number atLeast atMost
        by_cases first : number = start
        · exact ⟨it, mem_cons_self, here.trans first.symm⟩
        · obtain rfl | isLater := mem_cons.mp mem
          · omega
          · obtain ⟨other, isOther, same⟩ := noGap entry isLater number (by omega) atMost
            exact ⟨other, mem_cons_of_mem _ isOther, same⟩
      · intro noGap entry mem number atLeast atMost
        obtain ⟨other, isOther, same⟩ := noGap entry (mem_cons_of_mem _ mem) number (by omega) atMost
        obtain rfl | isLater := mem_cons.mp isOther
        · omega
        · exact ⟨other, isLater, same⟩
    next notHere =>
      refine iff_of_false (cons_ne_nil _ _) fun noGap => ?_
      obtain ⟨other, isOther, same⟩ := noGap it mem_cons_self start (Int.le_refl _) (within it mem_cons_self)
      obtain rfl | isLater := mem_cons.mp isOther
      · exact notHere same
      · have later := least other isLater
        have atLeast := within it mem_cons_self
        omega

/-- What is left behind a bound is nothing exactly if no number is missing from the bound on. -/
theorem releaseTo_left_eq_nil_iff (increasing : held.Pairwise fun first second => first.1 < second.1) :
    (releaseTo bound held).left.held = [] ↔
      ∀ entry ∈ held, ∀ number, bound ≤ number -> number ≤ entry.1 -> ∃ other ∈ held, other.1 = number := by
  have isBehind : ∀ entry ∈ held.dropWhile (·.1 < bound), bound ≤ entry.1 := dropWhile_ge increasing
  have split : ∀ entry ∈ held, bound ≤ entry.1 -> entry ∈ held.dropWhile (·.1 < bound) := by
    intro entry mem atLeast
    rw [← @takeWhile_append_dropWhile _ (fun entry : Int × Item => decide (entry.1 < bound)) held] at mem
    obtain before | behind := mem_append.mp mem
    · have less : entry.1 < bound := by simpa using mem_takeWhile_imp before
      omega
    · exact behind
  rw [releaseTo, releaseRun_left_eq_nil_iff (increasing.sublist (dropWhile_sublist _)) isBehind]
  constructor
  · intro noGap entry mem number atLeast atMost
    obtain ⟨other, isOther, same⟩ := noGap entry (split entry mem (by omega)) number atLeast atMost
    exact ⟨other, (dropWhile_sublist _).subset isOther, same⟩
  · intro noGap entry mem number atLeast atMost
    obtain ⟨other, isOther, same⟩ := noGap entry ((dropWhile_sublist _).subset mem) number atLeast atMost
    exact ⟨other, split other isOther (by omega), same⟩

theorem released_accept (ordered : buffer.Ordered size) (early : buffer.start ≤ entry.1) :
    Released buffer.start (hold entry buffer.held) (accept size entry buffer) := by
  have increasing := @hold_increasing Item buffer.held entry ordered.increasing
  rw [accept, if_neg (Int.not_lt_of_ge early)]
  split
  · apply released_releaseRun increasing
    intro other mem
    rcases mem_of_mem_hold mem with rfl | old
    · exact early
    · exact (ordered.within other old).1
  · exact released_releaseTo increasing (by omega)

theorem released_moveTo (ordered : buffer.Ordered size) : Released buffer.start buffer.held (moveTo bound buffer) := by
  rw [moveTo]
  split
  · exact ⟨rfl, Int.le_refl _, fun _ mem => absurd mem not_mem_nil, fun entry mem => (ordered.within entry mem).1⟩
  · exact released_releaseTo ordered.increasing (by omega)

/-- What is left is ordered again if nothing is beyond the window. -/
theorem Released.ordered {release : Release Item} (released : Released start held release)
    (increasing : held.Pairwise fun first second => first.1 < second.1)
    (within : ∀ entry ∈ held, entry.1 < release.left.start + size) : release.left.Ordered size := by
  rw [← released.whole] at increasing within
  refine ⟨(pairwise_append.mp increasing).2.1, fun entry mem => ⟨released.left entry mem, ?_⟩⟩
  exact within entry (mem_append_right _ mem)

theorem ordered_accept (ordered : buffer.Ordered size) : (accept size entry buffer).left.Ordered size := by
  by_cases early : buffer.start ≤ entry.1
  · have released := released_accept ordered early
    apply released.ordered (hold_increasing ordered.increasing)
    intro other mem
    have forwards := released.forwards
    have old : ∀ other ∈ buffer.held, other.1 < (accept size entry buffer).left.start + size := fun other mem => by
      have within := (ordered.within other mem).2
      omega
    rcases mem_of_mem_hold mem with rfl | isOld
    · by_cases inside : other.1 < buffer.start + size
      · omega
      · -- The window moves so far that the item is in it.
        have moved : other.1 - size + 1 ≤ (accept size other buffer).left.start := by
          rw [accept, if_neg (Int.not_lt_of_ge early), if_neg inside]
          exact (@released_releaseTo Item (other.1 - size + 1) _ _ (hold_increasing ordered.increasing)
            (Int.le_refl _)).forwards
        omega
    · exact old other isOld
  · rw [accept, if_pos (Int.lt_of_not_ge early)]
    exact ordered

theorem ordered_moveTo (ordered : buffer.Ordered size) : (moveTo bound buffer).left.Ordered size := by
  have released := @released_moveTo Item bound size buffer ordered
  apply released.ordered ordered.increasing
  intro other mem
  have forwards := released.forwards
  have within := (ordered.within other mem).2
  omega

end ReorderBuffer

end Ns3.Semantics
