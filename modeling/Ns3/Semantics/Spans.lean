import Mathlib.Data.List.Pairwise
import Mathlib.Algebra.Order.BigOperators.Group.List
import Mathlib.Tactic.Ring

/-!
# Spans of a stream

A `Span` is a nonempty range of positions. `trim` cuts a new range down to the part worth storing,
dropping the spans it replaces; `advance` follows the spans that continue a position; `cut` forgets
what lies before one; and `merge` joins a span with those it touches.
-/

namespace Ns3.Semantics

open List

/-- A nonempty range of positions. -/
@[ext]
structure Span where
  start : Nat
  stop : Nat
  nonempty : start < stop
  deriving DecidableEq

namespace Span

instance : Membership Nat Span :=
  ⟨fun span position => span.start ≤ position ∧ position < span.stop⟩

variable {span other : Span} {position : Nat}

theorem mem_iff : position ∈ span ↔ span.start ≤ position ∧ position < span.stop :=
  Iff.rfl

instance : Decidable (position ∈ span) :=
  decidable_of_iff _ mem_iff.symm

def length (span : Span) : Nat :=
  span.stop - span.start

@[simp]
theorem start_add_length : span.start + span.length = span.stop := by
  have := span.nonempty
  rw [length]
  omega

theorem start_mem (span : Span) : span.start ∈ span :=
  ⟨Nat.le_refl _, span.nonempty⟩

/-- Neither overlapping nor adjacent. -/
def Apart (span other : Span) : Prop :=
  span.stop < other.start ∨ other.stop < span.start

/-- Not overlapping. -/
def Disjoint (span other : Span) : Prop :=
  span.stop ≤ other.start ∨ other.stop ≤ span.start

theorem Apart.symm (apart : span.Apart other) : other.Apart span :=
  Or.symm apart

end Span

namespace Spans

variable {spans kept : List Span} {span : Span} {head tail next position : Nat}

/-- Each span ends before the next one starts. -/
def Ordered (spans : List Span) : Prop :=
  spans.Pairwise fun earlier later => earlier.stop ≤ later.start

def Covered (spans : List Span) (position : Nat) : Prop :=
  ∃ span ∈ spans, position ∈ span

instance : Decidable (Covered spans position) :=
  inferInstanceAs (Decidable (∃ span ∈ spans, position ∈ span))

/-- The number of positions held. -/
def total (spans : List Span) : Nat :=
  (spans.map Span.length).sum

@[simp]
theorem covered_nil : ¬ Covered [] position := by
  rintro ⟨span, mem, -⟩
  exact not_mem_nil mem

@[simp]
theorem covered_cons : Covered (span :: spans) position ↔ position ∈ span ∨ Covered spans position := by
  rw [Covered, exists_mem_cons_iff]
  rfl

@[simp]
theorem covered_append {others : List Span} :
    Covered (spans ++ others) position ↔ Covered spans position ∨ Covered others position := by
  constructor
  · rintro ⟨span, mem, inside⟩
    rcases mem_append.mp mem with first | second
    · exact .inl ⟨span, first, inside⟩
    · exact .inr ⟨span, second, inside⟩
  · rintro (⟨span, mem, inside⟩ | ⟨span, mem, inside⟩)
    · exact ⟨span, mem_append_left _ mem, inside⟩
    · exact ⟨span, mem_append_right _ mem, inside⟩

theorem Covered.mono (subset : kept ⊆ spans) (covered : Covered kept position) : Covered spans position := by
  obtain ⟨span, mem, inside⟩ := covered
  exact ⟨span, subset mem, inside⟩

@[simp]
theorem total_nil : total [] = 0 :=
  rfl

@[simp]
theorem total_cons : total (span :: spans) = span.length + total spans :=
  rfl

theorem ordered_cons : Ordered (span :: spans) ↔ (∀ later ∈ spans, span.stop ≤ later.start) ∧ Ordered spans :=
  pairwise_cons

theorem Ordered.sublist (ordered : Ordered spans) (sublist : kept.Sublist spans) : Ordered kept :=
  List.Pairwise.sublist sublist ordered

/-- Spans in order between two positions are no longer than the way between them. -/
theorem Ordered.total_le {low high : Nat} (ordered : Ordered spans) (room : low ≤ high)
    (within : ∀ span ∈ spans, low ≤ span.start ∧ span.stop ≤ high) : total spans ≤ high - low := by
  induction spans generalizing low with
  | nil => exact Nat.zero_le _
  | cons first rest ih =>
    obtain ⟨follow, ordered⟩ := ordered_cons.mp ordered
    obtain ⟨above, below⟩ := within first mem_cons_self
    have remaining := ih ordered below fun span mem =>
      ⟨follow span mem, (within span (mem_cons_of_mem _ mem)).2⟩
    have := first.start_add_length
    rw [total_cons]
    omega

/-! ## Placing -/

/-- Put a span before the first one that does not start before it. -/
def place (span : Span) : List Span -> List Span
  | [] => [span]
  | first :: rest => if first.start < span.start then first :: place span rest else span :: first :: rest

theorem place_perm : (place span spans).Perm (span :: spans) := by
  induction spans with
  | nil => exact .refl _
  | cons first rest ih =>
    rw [place]
    split
    · exact (ih.cons first).trans (.swap ..)
    · exact .refl _

@[simp]
theorem mem_place {other : Span} : other ∈ place span spans ↔ other = span ∨ other ∈ spans := by
  rw [place_perm.mem_iff, mem_cons]

@[simp]
theorem covered_place : Covered (place span spans) position ↔ position ∈ span ∨ Covered spans position := by
  simp only [Covered, mem_place, or_and_right, exists_or, exists_eq_left]

@[simp]
theorem total_place : total (place span spans) = span.length + total spans :=
  (place_perm.map Span.length).sum_eq

theorem Ordered.place (ordered : Ordered spans) (disjoint : ∀ other ∈ spans, span.Disjoint other) :
    Ordered (place span spans) := by
  induction spans with
  | nil => exact pairwise_singleton _ _
  | cons first rest ih =>
    obtain ⟨follow, rested⟩ := ordered_cons.mp ordered
    have apart := disjoint first mem_cons_self
    have := span.nonempty
    have := first.nonempty
    rw [Spans.place]
    split
    · have before : first.stop ≤ span.start := by
        rcases apart with apart | apart <;> omega
      refine ordered_cons.mpr ⟨fun later mem => ?_, ih rested fun other mem =>
        disjoint other (mem_cons_of_mem _ mem)⟩
      rcases mem_place.mp mem with rfl | mem
      · exact before
      · exact follow later mem
    · have before : span.stop ≤ first.start := by
        rcases apart with apart | apart <;> omega
      refine ordered_cons.mpr ⟨fun later mem => ?_, ordered⟩
      rcases mem_cons.mp mem with rfl | mem
      · exact before
      · have := follow later mem
        omega

/-! ## Trimming -/

/-- What is left of a range to be stored, and of the spans it is stored among. -/
structure Trimmed where
  head : Nat
  tail : Nat
  kept : List Span

def Trimmed.keep (span : Span) (trimmed : Trimmed) : Trimmed :=
  { trimmed with kept := span :: trimmed.kept }

/-- Move the ends of a range past the spans that overlap them, and drop the spans strictly
inside it. -/
def trim (head tail : Nat) : List Span -> Trimmed
  | [] => ⟨head, tail, []⟩
  | span :: rest =>
    if span.start ≤ tail then
      if head < span.stop then
        if head < span.start ∧ span.stop < tail then trim head tail rest
        else
          (trim (if span.start ≤ head then span.stop else head)
            (if tail ≤ span.stop then span.start else tail) rest).keep span
      else (trim head tail rest).keep span
    else ⟨head, tail, span :: rest⟩

/-- A trimmed range fits between the spans kept, and together they cover what the range and
the spans covered before. -/
structure Fits (spans : List Span) (head tail : Nat) (trimmed : Trimmed) : Prop where
  nonempty : trimmed.head < trimmed.tail
  head_le : head ≤ trimmed.head
  le_tail : trimmed.tail ≤ tail
  sublist : trimmed.kept.Sublist spans
  apart : ∀ span ∈ trimmed.kept, span.stop ≤ trimmed.head ∨ trimmed.tail ≤ span.start
  covers : ∀ position, Covered trimmed.kept position ∨ (trimmed.head ≤ position ∧ position < trimmed.tail) ↔
      Covered spans position ∨ (head ≤ position ∧ position < tail)
  hole : ¬ Covered spans trimmed.head

/-- A range with nothing left was covered already, and displaces nothing. -/
structure Redundant (spans : List Span) (head tail : Nat) (trimmed : Trimmed) : Prop where
  empty : trimmed.tail ≤ trimmed.head
  kept_eq : trimmed.kept = spans
  covered : ∀ position, head ≤ position -> position < tail -> Covered spans position

theorem trim_of_after (after : ∀ span ∈ spans, tail < span.start) : trim head tail spans = ⟨head, tail, spans⟩ := by
  cases spans with
  | nil => rfl
  | cons first rest =>
    have := after first mem_cons_self
    rw [trim, if_neg (by omega)]

/-- The ends of a trimmed range are ends of the range or of spans. -/
theorem trim_ends {property : Nat -> Prop} (ends : ∀ span ∈ spans, property span.start ∧ property span.stop)
    (atHead : property head) (atTail : property tail) :
    property (trim head tail spans).head ∧ property (trim head tail spans).tail := by
  induction spans generalizing head tail with
  | nil => exact ⟨atHead, atTail⟩
  | cons first rest ih =>
    obtain ⟨atStart, atStop⟩ := ends first mem_cons_self
    have later : ∀ span ∈ rest, property span.start ∧ property span.stop := fun span mem =>
      ends span (mem_cons_of_mem _ mem)
    rw [trim]
    split
    · split
      · split
        · exact ih later atHead atTail
        · refine ih later ?_ ?_
          · split <;> assumption
          · split <;> assumption
      · exact ih later atHead atTail
    · exact ⟨atHead, atTail⟩

theorem not_covered_of_after (after : ∀ span ∈ spans, position < span.start) : ¬ Covered spans position := by
  rintro ⟨span, mem, inside⟩
  have := after span mem
  have := inside.1
  omega

/-- When no span reaches the head, the head stays and something is left. -/
theorem trim_of_head_before (before : ∀ span ∈ spans, head < span.start) (room : head < tail) :
    (trim head tail spans).head = head ∧ head < (trim head tail spans).tail := by
  induction spans generalizing tail with
  | nil => exact ⟨rfl, room⟩
  | cons first rest ih =>
    have apart := before first mem_cons_self
    have := first.nonempty
    have later : ∀ span ∈ rest, head < span.start := fun span mem =>
      before span (mem_cons_of_mem _ mem)
    rw [trim]
    split
    · rw [if_pos (by omega)]
      split
      · exact ih later room
      · rw [if_neg (by omega)]
        split
        · exact ih later apart
        · exact ih later room
    · exact ⟨rfl, room⟩

variable {trimmed : Trimmed} {first current : Span}

theorem Fits.keep (fits : Fits spans next tail trimmed) (before : first.stop ≤ next) (reaches : head ≤ next)
    (same : ∀ position, position ∈ first ∨ (next ≤ position ∧ position < tail) ↔
      position ∈ first ∨ (head ≤ position ∧ position < tail)) :
    Fits (first :: spans) head tail (trimmed.keep first) where
  nonempty := fits.nonempty
  head_le := Nat.le_trans reaches fits.head_le
  le_tail := fits.le_tail
  sublist := fits.sublist.cons_cons first
  apart := by
    intro span mem
    rcases mem_cons.mp mem with rfl | mem
    · exact .inl (Nat.le_trans before fits.head_le)
    · exact fits.apart span mem
  covers := by
    intro position
    simp only [Trimmed.keep, covered_cons]
    rw [or_assoc, fits.covers, or_left_comm, same, or_left_comm, ← or_assoc]
  hole := by
    rw [covered_cons]
    rintro (inside | covered)
    · have := fits.head_le
      have := inside.2
      simp only [Trimmed.keep] at this
      omega
    · exact fits.hole covered

theorem Redundant.keep (redundant : Redundant spans next tail trimmed)
    (same : ∀ position, head ≤ position -> position < tail -> position ∈ first ∨ next ≤ position) :
    Redundant (first :: spans) head tail (trimmed.keep first) where
  empty := redundant.empty
  kept_eq := congrArg (first :: ·) redundant.kept_eq
  covered := by
    intro position above below
    rw [covered_cons]
    rcases same position above below with inside | beyond
    · exact .inl inside
    · exact .inr (redundant.covered position beyond below)

/-- A span inside the range is dropped: the range covers it, and still has its head. -/
theorem Fits.drop (fits : Fits spans head tail trimmed)
    (stays : trimmed.head = head) (starts : head < first.start) (ends : first.stop < tail) :
    Fits (first :: spans) head tail trimmed where
  nonempty := fits.nonempty
  head_le := fits.head_le
  le_tail := fits.le_tail
  sublist := fits.sublist.cons first
  apart := fits.apart
  covers := by
    intro position
    rw [fits.covers, covered_cons, Span.mem_iff]
    constructor
    · rintro (covered | within)
      · exact .inl (.inr covered)
      · exact .inr within
    · rintro ((within | covered) | within)
      · exact .inr ⟨by omega, by omega⟩
      · exact .inl covered
      · exact .inr within
  hole := by
    rw [covered_cons]
    rintro (within | covered)
    · have := within.1
      omega
    · exact fits.hole covered

/-- The tail moves before the span that overlaps it, and no later span is reached. -/
theorem fits_of_tail_inside (starts : head < first.start) (reaches : first.start ≤ tail) (ends : tail ≤ first.stop)
    (after : ∀ span ∈ spans, first.start < span.start) :
    Fits (first :: spans) head tail ⟨head, first.start, first :: spans⟩ where
  nonempty := starts
  head_le := Nat.le_refl _
  le_tail := reaches
  sublist := .refl _
  apart := by
    intro span mem
    rcases mem_cons.mp mem with rfl | mem
    · exact .inr (Nat.le_refl _)
    · exact .inr (Nat.le_of_lt (after span mem))
  covers := by
    intro position
    simp only [covered_cons]
    constructor
    · rintro (covered | within)
      · exact .inl covered
      · exact .inr ⟨within.1, by omega⟩
    · rintro (covered | within)
      · exact .inl covered
      · rcases Nat.lt_or_ge position first.start with low | high
        · exact .inr ⟨within.1, low⟩
        · exact .inl (.inl ⟨high, by omega⟩)
  hole := by
    rw [covered_cons]
    rintro (within | covered)
    · exact absurd within.1 (Nat.not_le_of_lt starts)
    · exact not_covered_of_after (fun span mem => Nat.lt_trans starts (after span mem)) covered

theorem untouched_spec (valid : head ≤ tail) (after : ∀ span ∈ spans, tail < span.start) :
    Fits spans head tail ⟨head, tail, spans⟩ ∨ Redundant spans head tail ⟨head, tail, spans⟩ := by
  rcases Nat.lt_or_eq_of_le valid with room | rfl
  · exact .inl {
      nonempty := room
      head_le := Nat.le_refl _
      le_tail := Nat.le_refl _
      sublist := .refl _
      apart := fun span mem => .inr (Nat.le_of_lt (after span mem))
      covers := fun position => Iff.rfl
      hole := not_covered_of_after fun span mem => Nat.lt_trans room (after span mem) }
  · exact .inr ⟨Nat.le_refl _, rfl, fun position above below => by omega⟩

/-- What `trim` leaves of a range fits, unless the range was covered already. -/
theorem trim_spec (ordered : Ordered spans) (valid : head ≤ tail) :
    Fits spans head tail (trim head tail spans) ∨ Redundant spans head tail (trim head tail spans) := by
  induction spans generalizing head with
  | nil => exact untouched_spec valid fun span mem => nomatch mem
  | cons first rest ih =>
    obtain ⟨follow, rested⟩ := ordered_cons.mp ordered
    have proper := first.nonempty
    have beyond {position : Nat} (low : position < first.stop) :
        ∀ span ∈ rest, position < span.start := fun span mem =>
      Nat.lt_of_lt_of_le low (follow span mem)
    rw [trim]
    split
    next reaches =>
      split
      next overlaps =>
        split
        next inside =>
          obtain ⟨stays, room⟩ : (trim head tail rest).head = head ∧ head < (trim head tail rest).tail :=
            trim_of_head_before (beyond overlaps) (by omega)
          rcases ih rested valid with fits | redundant
          · exact .inl (fits.drop stays inside.1 inside.2)
          · exact absurd redundant.empty (by omega)
        next notInside =>
          by_cases short : first.stop < tail
          · -- Only the head is overlapped.
            rw [if_pos (show first.start ≤ head by omega), if_neg (by omega)]
            rcases ih rested (Nat.le_of_lt short) with fits | redundant
            · refine .inl (fits.keep (Nat.le_refl _) (by omega) fun position => ?_)
              rw [Span.mem_iff]
              omega
            · refine .inr (redundant.keep fun position above below => ?_)
              rw [Span.mem_iff]
              omega
          · -- The tail is overlapped, and the head too if the range is inside the span.
            rw [if_pos (show tail ≤ first.stop by omega), trim_of_after (beyond proper)]
            split
            next headInside =>
              refine .inr ⟨Nat.le_of_lt proper, rfl, fun position above below => ?_⟩
              exact covered_cons.mpr (.inl ⟨by omega, by omega⟩)
            next headBefore =>
              exact .inl (fits_of_tail_inside (by omega) reaches (by omega) (beyond proper))
      next ends =>
        rcases ih rested valid with fits | redundant
        · exact .inl (fits.keep (by omega) (Nat.le_refl _) fun position => Iff.rfl)
        · exact .inr (redundant.keep fun position above _ => .inr above)
    next starts =>
      refine untouched_spec valid fun span mem => ?_
      rcases mem_cons.mp mem with rfl | mem
      · omega
      · exact beyond (by omega) span mem

/-- A span dropped by `trim` is inside the range, behind a hole of it. -/
theorem trim_dropped (ordered : Ordered spans) (mem : span ∈ spans)
    (dropped : span ∉ (trim head tail spans).kept) :
    span.stop < tail ∧ ∃ position, head ≤ position ∧ position < span.start ∧ ¬ Covered spans position := by
  induction spans generalizing head tail with
  | nil => cases mem
  | cons first rest ih =>
    obtain ⟨follow, rested⟩ := ordered_cons.mp ordered
    have proper := first.nonempty
    have beyond {position : Nat} (low : position < first.stop) :
        ∀ span ∈ rest, position < span.start := fun span mem =>
      Nat.lt_of_lt_of_le low (follow span mem)
    rw [trim] at dropped
    split at dropped
    next reaches =>
      split at dropped
      next overlaps =>
        split at dropped
        next inside =>
          have hole : ¬ Covered (first :: rest) head := by
            rw [covered_cons]
            rintro (within | covered)
            · have := within.1
              omega
            · exact not_covered_of_after (beyond overlaps) covered
          rcases mem_cons.mp mem with rfl | mem
          · exact ⟨inside.2, head, Nat.le_refl _, inside.1, hole⟩
          · obtain ⟨ends, -⟩ := ih rested mem dropped
            exact ⟨ends, head, Nat.le_refl _, beyond overlaps span mem, hole⟩
        next notInside =>
          rcases mem_cons.mp mem with rfl | mem
          · exact absurd mem_cons_self dropped
          · by_cases short : first.stop < tail
            · rw [if_pos (show first.start ≤ head by omega), if_neg (by omega)] at dropped
              obtain ⟨ends, position, above, below, hole⟩ := ih rested mem
                fun kept => dropped (mem_cons_of_mem _ kept)
              refine ⟨ends, position, by omega, below, ?_⟩
              rw [covered_cons]
              rintro (within | covered)
              · exact absurd within.2 (by omega)
              · exact hole covered
            · rw [if_pos (show tail ≤ first.stop by omega), trim_of_after (beyond proper)] at dropped
              exact absurd (mem_cons_of_mem _ mem) dropped
      next ends =>
        rcases mem_cons.mp mem with rfl | mem
        · exact absurd mem_cons_self dropped
        · obtain ⟨ends, position, above, below, hole⟩ := ih rested mem
            fun kept => dropped (mem_cons_of_mem _ kept)
          refine ⟨ends, position, above, below, ?_⟩
          rw [covered_cons]
          rintro (within | covered)
          · have := within.2
            omega
          · exact hole covered
    next starts => exact absurd mem dropped

/-! ## Advancing -/

/-- Follow the spans that continue a position. -/
def advance (next : Nat) : List Span -> Nat
  | [] => next
  | span :: rest =>
    if span.start < next then advance next rest
    else if next < span.start then next
    else advance span.stop rest

theorem le_advance (next : Nat) (spans : List Span) : next ≤ advance next spans := by
  induction spans generalizing next with
  | nil => exact Nat.le_refl _
  | cons first rest ih =>
    have := first.nonempty
    rw [advance]
    split
    · exact ih next
    · split
      · exact Nat.le_refl _
      · have := ih first.stop
        omega

/-- What `advance` passes is covered, and no span continues where it stops. -/
theorem advance_spec (ordered : Ordered spans)
    (passed : ∀ span ∈ spans, span.start < next -> span.stop ≤ next) :
    next ≤ advance next spans ∧
      (∀ position, next ≤ position -> position < advance next spans -> Covered spans position) ∧
        ∀ span ∈ spans, span.stop ≤ advance next spans ∨ advance next spans < span.start := by
  induction spans generalizing next with
  | nil =>
    refine ⟨Nat.le_refl _, fun position above below => ?_, fun span mem =>
      nomatch mem⟩
    rw [advance] at below
    omega
  | cons first rest ih =>
    obtain ⟨follow, rested⟩ := ordered_cons.mp ordered
    have proper := first.nonempty
    rw [advance]
    split
    next behind =>
      obtain ⟨further, filled, gap⟩ := ih rested fun span mem =>
        passed span (mem_cons_of_mem _ mem)
      refine ⟨further, fun position above below => covered_cons.mpr (.inr (filled position above below)),
        fun span mem => ?_⟩
      rcases mem_cons.mp mem with rfl | mem
      · have := passed span mem_cons_self behind
        omega
      · exact gap span mem
    next notBehind =>
      split
      next ahead =>
        refine ⟨Nat.le_refl _, fun position above below => by omega, fun span mem => ?_⟩
        rcases mem_cons.mp mem with rfl | mem
        · exact .inr ahead
        · have := follow span mem
          omega
      next continues =>
        have later : ∀ span ∈ rest, span.start < first.stop -> span.stop ≤ first.stop :=
          fun span mem low => by
            have := follow span mem
            omega
        obtain ⟨further, filled, gap⟩ := ih rested later
        refine ⟨by omega, fun position above below => ?_, fun span mem => ?_⟩
        · rw [covered_cons]
          rcases Nat.lt_or_ge position first.stop with low | high
          · exact .inl ⟨by omega, low⟩
          · exact .inr (filled position high below)
        · rcases mem_cons.mp mem with rfl | mem
          · exact .inl further
          · exact gap span mem

variable {start stop : Nat} {passed rest : List Span}

/-- In a row of spans without holes, the first one starts where the row does. -/
theorem first_start (ordered : Ordered (first :: spans))
    (above : ∀ span ∈ first :: spans, start ≤ span.start)
    (filled : ∀ position, start ≤ position -> position < stop -> Covered (first :: spans) position)
    (room : start < stop) : first.start = start := by
  have starts := above first mem_cons_self
  have := first.nonempty
  rcases covered_cons.mp (filled start (Nat.le_refl _) room) with within | ⟨later, inRest, within⟩
  · have := within.1
    omega
  · have := (ordered_cons.mp ordered).1 later inRest
    have := within.1
    omega

/-! ## Cutting -/

/-- What is left at and after a position. -/
def cut (position : Nat) : List Span -> List Span
  | [] => []
  | span :: rest =>
    if before : span.stop ≤ position then cut position rest
    else if span.start < position then ⟨position, span.stop, Nat.lt_of_not_le before⟩ :: rest
    else span :: rest

section

variable (ordered : Ordered spans)
include ordered

/-- What is left of a span is at its end. -/
theorem mem_cut (mem : span ∈ cut position spans) :
    position ≤ span.start ∧ ∃ whole ∈ spans, whole.stop = span.stop ∧ whole.start ≤ span.start ∧
      (span = whole ∨ span.start = position) := by
  induction spans with
  | nil => cases mem
  | cons first rest ih =>
    obtain ⟨follow, rested⟩ := ordered_cons.mp ordered
    rw [cut] at mem
    split at mem
    next before =>
      obtain ⟨above, whole, inRest, same⟩ := ih rested mem
      exact ⟨above, whole, mem_cons_of_mem _ inRest, same⟩
    next notBefore =>
      have beyond : ∀ later ∈ rest, position ≤ later.start := fun later inRest => by
        have := follow later inRest
        omega
      split at mem
      next partly =>
        rcases mem_cons.mp mem with rfl | inRest
        · exact ⟨Nat.le_refl _, first, mem_cons_self, rfl, Nat.le_of_lt partly, .inr rfl⟩
        · exact ⟨beyond span inRest, span, mem_cons_of_mem _ inRest, rfl, Nat.le_refl _, .inl rfl⟩
      next whole =>
        refine ⟨?_, span, mem, rfl, Nat.le_refl _, .inl rfl⟩
        rcases mem_cons.mp mem with rfl | inRest
        · omega
        · exact beyond span inRest

theorem Ordered.cut (position : Nat) : Ordered (cut position spans) := by
  induction spans with
  | nil => exact ordered
  | cons first rest ih =>
    obtain ⟨follow, rested⟩ := ordered_cons.mp ordered
    rw [Spans.cut]
    split
    · exact ih rested
    · split
      · exact ordered_cons.mpr ⟨follow, rested⟩
      · exact ordered

theorem covered_cut {other : Nat} :
    Covered (cut position spans) other ↔ Covered spans other ∧ position ≤ other := by
  induction spans with
  | nil => exact ⟨fun covered => absurd covered covered_nil, fun both => absurd both.1 covered_nil⟩
  | cons first rest ih =>
    obtain ⟨follow, rested⟩ := ordered_cons.mp ordered
    rw [cut]
    have beyond : ¬ first.stop ≤ position -> Covered rest other -> position ≤ other := by
      rintro ends ⟨later, inRest, inside⟩
      have := follow later inRest
      have := inside.1
      omega
    split
    next before =>
      rw [ih rested, covered_cons, Span.mem_iff]
      constructor
      · rintro ⟨covered, above⟩
        exact ⟨.inr covered, above⟩
      · rintro ⟨within | covered, above⟩
        · omega
        · exact ⟨covered, above⟩
    next ends =>
      split
      next partly =>
        simp only [covered_cons, Span.mem_iff]
        constructor
        · rintro (within | covered)
          · exact ⟨.inl ⟨by omega, within.2⟩, by omega⟩
          · exact ⟨.inr covered, beyond ends covered⟩
        · rintro ⟨within | covered, above⟩
          · exact .inl ⟨by omega, within.2⟩
          · exact .inr covered
      next whole =>
        refine ⟨fun covered => ⟨covered, ?_⟩, And.left⟩
        rcases covered_cons.mp covered with within | covered
        · have := within.1
          omega
        · exact beyond ends covered

/-- What is cut off a row of spans without holes is as long as the way cut. -/
theorem total_cut (valid : start ≤ stop)
    (above : ∀ span ∈ spans, start ≤ span.start)
    (filled : ∀ position, start ≤ position -> position < stop -> Covered spans position) :
    total spans = (stop - start) + total (cut stop spans) := by
  induction spans generalizing start with
  | nil =>
    rcases Nat.lt_or_eq_of_le valid with room | rfl
    · exact absurd (filled start (Nat.le_refl _) room) covered_nil
    · simp only [total_nil, cut, Nat.sub_self]
  | cons first rest ih =>
    obtain ⟨follow, rested⟩ := ordered_cons.mp ordered
    have starts := above first mem_cons_self
    have := first.start_add_length
    have := first.nonempty
    rw [cut, total_cons]
    split
    next before =>
      have begins := first_start ordered above filled (by omega)
      have := ih rested before follow fun position high low => by
        rcases covered_cons.mp (filled position (by omega) low) with within | covered
        · exact absurd within.2 (by omega)
        · exact covered
      omega
    next notBefore =>
      split
      next partly =>
        have begins := first_start ordered above filled (by omega)
        simp only [total_cons, Span.length] at *
        omega
      next whole =>
        rw [total_cons]
        rcases Nat.lt_or_eq_of_le valid with room | rfl
        · have := first_start ordered above filled room
          omega
        · omega

end

/-! ## Merging -/

theorem merge_decreases (passed rest : Nat) :
    (passed + rest) ^ 2 + (passed + rest) < (passed + (rest + 1)) ^ 2 + (rest + 1) := by
  have square : (passed + (rest + 1)) ^ 2 = (passed + rest) ^ 2 + 2 * (passed + rest) + 1 := by ring
  omega

/-- Join a span with those it touches, one after the other, and put it before the rest. After
each join the others are looked at again from the first; `passed` are those looked at. -/
def merge (front : Span) (passed : List Span) : List Span -> List Span
  | [] => front :: passed
  | current :: rest =>
    have := front.nonempty
    have := current.nonempty
    if left : front.start = current.stop then
      merge ⟨current.start, front.stop, by omega⟩ [] (passed ++ rest)
    else if right : front.stop = current.start then
      merge ⟨front.start, current.stop, by omega⟩ [] (passed ++ rest)
    else merge front (passed ++ [current]) rest
  termination_by ahead => (passed.length + ahead.length) ^ 2 + ahead.length
  decreasing_by
    all_goals simp only [length_nil, length_append, length_cons, Nat.zero_add]
    · exact merge_decreases ..
    · exact merge_decreases ..
    · rw [show passed.length + 1 + rest.length = passed.length + (rest.length + 1) by omega]
      omega

/-- The merged span holds the first one and comes first; what is covered stays the same. -/
theorem merge_spec (front : Span) (passed ahead : List Span) :
    ∃ first others, merge front passed ahead = first :: others ∧ first.start ≤ front.start ∧ front.stop ≤ first.stop ∧
        others.length ≤ passed.length + ahead.length ∧ ∀ position, Covered (merge front passed ahead) position ↔
            position ∈ front ∨ Covered passed position ∨ Covered ahead position := by
  induction front, passed, ahead using merge.induct with
  | case1 front passed =>
    refine ⟨front, passed, by rw [merge], Nat.le_refl _, Nat.le_refl _, Nat.le_refl _, fun position => ?_⟩
    rw [merge, covered_cons]
    simp only [covered_nil, or_false]
  | case2 front passed current rest proper _ left ih =>
    obtain ⟨first, others, same, starts, stops, shorter, covers⟩ := ih
    have joined (position : Nat) : current.start ≤ position ∧ position < front.stop ↔
        position ∈ front ∨ position ∈ current := by
      simp only [Span.mem_iff]
      omega
    rw [length_nil, length_append] at shorter
    rw [merge, dif_pos left, length_cons]
    refine ⟨first, others, same, by simp only at starts; omega, stops, by omega, fun position => ?_⟩
    rw [covers, Span.mem_iff, joined]
    simp only [covered_nil, false_or, covered_append, covered_cons]
    rw [or_assoc, @or_left_comm (position ∈ current)]
  | case3 front passed current rest proper _ left right ih =>
    obtain ⟨first, others, same, starts, stops, shorter, covers⟩ := ih
    have joined (position : Nat) : front.start ≤ position ∧ position < current.stop ↔
        position ∈ front ∨ position ∈ current := by
      simp only [Span.mem_iff]
      omega
    rw [length_nil, length_append] at shorter
    rw [merge, dif_neg left, dif_pos right, length_cons]
    refine ⟨first, others, same, starts, by simp only at stops; omega, by omega, fun position => ?_⟩
    rw [covers, Span.mem_iff, joined]
    simp only [covered_nil, false_or, covered_append, covered_cons]
    rw [or_assoc, @or_left_comm (position ∈ current)]
  | case4 front passed current rest _ _ left right ih =>
    obtain ⟨first, others, same, starts, stops, shorter, covers⟩ := ih
    rw [length_append, length_singleton] at shorter
    rw [merge, dif_neg left, dif_neg right, length_cons]
    refine ⟨first, others, same, starts, stops, by omega, fun position => ?_⟩
    rw [covers]
    simp only [covered_append, covered_cons, covered_nil, or_false, or_assoc]

theorem mem_of_mem_middle (mem : span ∈ passed ++ rest) : span ∈ passed ++ current :: rest := by
  rcases mem_append.mp mem with mem | mem
  · exact mem_append_left _ mem
  · exact mem_append_right _ (mem_cons_of_mem _ mem)

theorem apart_of_middle (apart : (passed ++ current :: rest).Pairwise Span.Apart) :
    (passed ++ rest).Pairwise Span.Apart ∧ ∀ span ∈ passed ++ rest, current.Apart span := by
  have moved := (perm_middle.pairwise_iff Span.Apart.symm).mp apart
  exact ⟨(pairwise_cons.mp moved).2, (pairwise_cons.mp moved).1⟩

theorem disjoint_of_middle {front : Span}
    (away : ∀ span ∈ passed, front.Apart span) (disjoint : ∀ span ∈ current :: rest, front.Disjoint span)
    (mem : span ∈ passed ++ rest) : front.Disjoint span := by
  rcases mem_append.mp mem with mem | mem
  · exact (away span mem).imp Nat.le_of_lt Nat.le_of_lt
  · exact disjoint span (mem_cons_of_mem _ mem)

/-- Merging a span into spans that are pairwise apart, and that it does not overlap, leaves
spans that are pairwise apart. -/
theorem merge_apart (front : Span) (passed ahead : List Span)
    (apart : (passed ++ ahead).Pairwise Span.Apart) (away : ∀ span ∈ passed, front.Apart span)
    (disjoint : ∀ span ∈ ahead, front.Disjoint span) : (merge front passed ahead).Pairwise Span.Apart := by
  induction front, passed, ahead using merge.induct with
  | case1 front passed =>
    rw [merge, pairwise_cons]
    exact ⟨away, by rwa [append_nil] at apart⟩
  | case2 front passed current rest _ _ left ih =>
    rw [merge, dif_pos left]
    obtain ⟨others, fromCurrent⟩ := apart_of_middle apart
    refine ih others (fun span mem => nomatch mem) fun span mem => ?_
    have fromFront := disjoint_of_middle away disjoint mem
    have := fromCurrent span mem
    have := span.nonempty
    simp only [Span.Disjoint, Span.Apart] at *
    omega
  | case3 front passed current rest _ _ left right ih =>
    rw [merge, dif_neg left, dif_pos right]
    obtain ⟨others, fromCurrent⟩ := apart_of_middle apart
    refine ih others (fun span mem => nomatch mem) fun span mem => ?_
    have fromFront := disjoint_of_middle away disjoint mem
    have := fromCurrent span mem
    have := span.nonempty
    simp only [Span.Disjoint, Span.Apart] at *
    omega
  | case4 front passed current rest _ _ left right ih =>
    rw [merge, dif_neg left, dif_neg right]
    refine ih (by rwa [append_assoc, singleton_append]) ?_ fun span mem => disjoint span (mem_cons_of_mem _ mem)
    intro span mem
    rcases mem_append.mp mem with mem | mem
    · exact away span mem
    · obtain rfl := mem_singleton.mp mem
      have := disjoint span mem_cons_self
      simp only [Span.Disjoint, Span.Apart] at *
      omega

end Spans

end Ns3.Semantics
