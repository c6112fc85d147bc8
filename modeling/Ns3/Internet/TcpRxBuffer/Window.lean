import Ns3.Semantics.Spans

/-!
# The receive window over a stream

A `Window` is where a receiver stands in a stream, in positions of the stream: what it has
released, where its next byte is, and the spans it holds. `Sound` is what its operations keep,
as long as what is added meets `AddGuard`.
-/

namespace Ns3.Internet

open Ns3.Semantics Ns3.Semantics.Spans List Nat

@[ext]
structure Window where
  /-- How much has been released to the application. -/
  released : Nat
  /-- The first position not received in order. -/
  next : Nat
  spans : List Span
  /-- The blocks reported, the most recent one first. -/
  sack : List Span
  gotFin : Bool
  deriving DecidableEq

namespace Window

variable (finish maxBuffer : Nat) (window : Window)

def empty : Window :=
  ⟨0, 0, [], [], false⟩

/-- RCV.NXT, which counts the FIN once everything before it has been received. -/
def rcvNxt : Nat :=
  if window.gotFin = true ∧ window.next = finish then window.next + 1 else window.next

/-- Where the end of a range is cut: after the first span held. -/
def limit (stop : Nat) : Nat :=
  match window.spans with
  | [] => stop
  | first :: _ => min stop (first.start + maxBuffer)

/-- The head of a range, moved to RCV.NXT, and not past the limit while something is held. -/
def head (start stop : Nat) : Nat :=
  if window.spans = [] then max start (window.rcvNxt finish)
  else min (max start (window.rcvNxt finish)) (window.limit maxBuffer stop)

def trimmed (start stop : Nat) : Trimmed :=
  trim (window.head finish maxBuffer start stop) (window.limit maxBuffer stop) window.spans

/-- The blocks reported once a span has been stored, before RCV.NXT moves. -/
def reported (span : Span) : List Span :=
  if window.next < span.start then (merge span [] window.sack).take 4 else window.sack

/-- Store a span among those kept. -/
def store (span : Span) (kept : List Span) : Window :=
  let spans := place span kept
  let next := advance window.next spans
  { window with
    spans := spans
    next := next
    sack := (window.reported span).filter fun block => next < block.stop }

def add (start stop : Nat) : Window × Bool :=
  let trimmed := window.trimmed finish maxBuffer start stop
  if room : trimmed.head < trimmed.tail then
    (window.store ⟨trimmed.head, trimmed.tail, room⟩ trimmed.kept, true)
  else ({ window with spans := trimmed.kept }, false)

def extract (maxSize : Nat) : Window :=
  let released := window.released + min maxSize (window.next - window.released)
  { window with released := released, spans := cut released window.spans }

def setFin : Window :=
  { window with gotFin := true }

/-- What every operation keeps. -/
structure Sound : Prop where
  ordered : Ordered window.spans
  released_le : window.released ≤ window.next
  above : ∀ span ∈ window.spans, window.released ≤ span.start
  filled : ∀ position, window.released ≤ position -> position < window.next -> Covered window.spans position
  gap : ∀ span ∈ window.spans, span.stop ≤ window.next ∨ window.next < span.start
  reach : ∀ span ∈ window.spans, span.stop ≤ window.next + 2 ^ 30
  room : ∀ span ∈ window.spans, span.stop ≤ window.released + max (2 ^ 30) maxBuffer
  closed : window.gotFin = true -> window.next ≤ finish ∧ ∀ span ∈ window.spans, span.stop ≤ finish
  ringed : window.gotFin = true -> finish < window.next + 2 ^ 32
  few : window.sack.length ≤ 4
  sack : ∀ block ∈ window.sack, window.next < block.start ∧ ∀ position ∈ block, Covered window.spans position

/-- What the range `[start, stop)` meets when it is added. -/
structure AddGuard (start stop : Nat) : Prop where
  valid : start ≤ stop
  behind : window.rcvNxt finish ≤ start + 2 ^ 30
  ahead : stop ≤ window.rcvNxt finish + 2 ^ 30
  near : ∀ first ∈ window.spans.head?,
    first.start + maxBuffer < stop + 2 ^ 31 ∧ stop < first.start + maxBuffer + 2 ^ 31
  beforeFin : window.gotFin = true -> ∀ position, max start (window.rcvNxt finish) ≤ position ->
    position < window.limit maxBuffer stop -> ¬ Covered window.spans position -> position < finish

variable {finish maxBuffer window} {start stop position : Nat}

theorem next_le_rcvNxt : window.next ≤ window.rcvNxt finish := by
  rw [rcvNxt]
  split <;> omega

theorem rcvNxt_le : window.rcvNxt finish ≤ window.next + 1 := by
  rw [rcvNxt]
  split <;> omega

theorem limit_le : window.limit maxBuffer stop ≤ stop := by
  rw [limit]
  split
  · exact le_refl _
  · exact min_le_left _ _

theorem empty_sound : Sound finish maxBuffer empty where
  ordered := List.Pairwise.nil
  released_le := le_refl _
  above := fun _ mem => nomatch mem
  filled := fun _ _ below => absurd below (not_lt_zero _)
  gap := fun _ mem => nomatch mem
  reach := fun _ mem => nomatch mem
  room := fun _ mem => nomatch mem
  closed := fun got => absurd got Bool.false_ne_true
  ringed := fun got => absurd got Bool.false_ne_true
  few := zero_le _
  sack := fun _ mem => nomatch mem

/-- What is left of a range added fits between the spans kept, unless all of it that lies in the
window is held already. -/
theorem trimmed_spec (ordered : Ordered window.spans) :
    Fits window.spans (max start (window.rcvNxt finish)) (window.limit maxBuffer stop)
        (window.trimmed finish maxBuffer start stop) ∨
      Redundant window.spans (max start (window.rcvNxt finish)) (window.limit maxBuffer stop)
        (window.trimmed finish maxBuffer start stop) := by
  rw [trimmed]
  rcases lt_or_ge (window.limit maxBuffer stop) (max start (window.rcvNxt finish)) with past | valid
  · have nothing : Redundant window.spans (max start (window.rcvNxt finish)) (window.limit maxBuffer stop)
        ⟨window.limit maxBuffer stop, window.limit maxBuffer stop, window.spans⟩ :=
      ⟨le_refl _, rfl, fun position above below => by omega⟩
    right
    rw [head]
    split
    next isEmpty =>
      rw [isEmpty, trim]
      exact ⟨le_of_lt past, rfl, fun position above below => by omega⟩
    next isHeld =>
      rw [min_eq_right (le_of_lt past)]
      rcases @trim_spec window.spans _ _ ordered (le_refl (window.limit maxBuffer stop)) with
        fits | redundant
      · have := fits.nonempty
        have := fits.head_le
        have := fits.le_tail
        omega
      · exact ⟨redundant.empty, redundant.kept_eq, fun position above below => by omega⟩
  · have same : window.head finish maxBuffer start stop = max start (window.rcvNxt finish) := by
      rw [head]
      split
      · rfl
      · exact min_eq_left valid
    rw [same]
    exact trim_spec ordered valid

section

variable (sound : Sound finish maxBuffer window)
include sound

theorem Sound.next_not_covered : ¬ Covered window.spans window.next := by
  rintro ⟨span, mem, inside⟩
  have := inside.1
  have := inside.2
  rcases sound.gap span mem with behind | ahead <;> omega

/-- Blocks are ahead of RCV.NXT, which counts the FIN only when nothing is held beyond it. -/
theorem Sound.rcvNxt_lt_block {block : Span}
    (mem : block ∈ window.sack) : window.rcvNxt finish < block.start := by
  obtain ⟨ahead, held⟩ := sound.sack block mem
  rw [rcvNxt]
  split
  next counted =>
    obtain ⟨span, inSpans, inside⟩ := held block.start block.start_mem
    have := (sound.closed counted.1).2 span inSpans
    have := inside.2
    omega
  next notCounted => exact ahead

/-- While some bytes are unread, the first span starts with them. -/
theorem Sound.first_start (unread : window.released < window.next)
    {first : Span} (isFirst : first ∈ window.spans.head?) : first.start = window.released := by
  obtain ⟨rest, same⟩ := head?_eq_some_iff.mp isFirst
  have ordered := sound.ordered
  have above := sound.above
  have filled := sound.filled
  rw [same] at ordered above filled
  exact Spans.first_start ordered above filled unread

theorem Sound.length_reported (span : Span) : (window.reported span).length ≤ 4 := by
  rw [reported]
  split
  · exact length_take_le _ _
  · exact sound.few

end

section

variable {span : Span} {kept : List Span} (sound : Sound finish maxBuffer window)
  (guarded : AddGuard finish maxBuffer window start stop)
  (fits : Fits window.spans (max start (window.rcvNxt finish)) (window.limit maxBuffer stop)
    ⟨span.start, span.stop, kept⟩)
include fits

theorem covered_store : Covered (window.store span kept).spans position ↔ Covered window.spans position ∨
    (max start (window.rcvNxt finish) ≤ position ∧ position < window.limit maxBuffer stop) := by
  rw [← fits.covers, store, covered_place, Span.mem_iff, or_comm]

theorem next_le_start : window.next ≤ span.start :=
  le_trans next_le_rcvNxt (le_trans (le_max_right _ _) fits.head_le)

theorem stop_le : span.stop ≤ stop :=
  le_trans fits.le_tail limit_le

include guarded in
/-- Nothing is stored once the FIN has been counted. -/
theorem rcvNxt_of_fits : window.rcvNxt finish = window.next := by
  by_contra ne
  have counted : window.gotFin = true ∧ window.next = finish := by
    by_contra notCounted
    exact ne (by rw [rcvNxt, if_neg notCounted])
  have beyond : window.rcvNxt finish = window.next + 1 := by rw [rcvNxt, if_pos counted]
  have := guarded.beforeFin counted.1 span.start fits.head_le (lt_of_lt_of_le span.nonempty fits.le_tail) fits.hole
  have above : max start (window.rcvNxt finish) ≤ span.start := fits.head_le
  rw [beyond] at above
  omega

variable {other block : Span}

theorem mem_store (mem : other ∈ (window.store span kept).spans) : other = span ∨ other ∈ window.spans := by
  rcases mem_place.mp mem with same | inKept
  · exact .inl same
  · exact .inr (fits.sublist.subset inKept)

include sound

theorem ordered_store : Ordered (window.store span kept).spans := by
  refine (sound.ordered.sublist fits.sublist).place fun other mem => ?_
  exact (fits.apart other mem).symm

theorem advance_store : window.next ≤ (window.store span kept).next ∧
    (∀ position, window.next ≤ position -> position < (window.store span kept).next ->
      Covered (window.store span kept).spans position) ∧
      ∀ other ∈ (window.store span kept).spans,
        other.stop ≤ (window.store span kept).next ∨ (window.store span kept).next < other.start := by
  refine advance_spec (ordered_store sound fits) fun other mem behind => ?_
  rcases mem_store fits mem with rfl | old
  · exact absurd behind (Nat.not_lt_of_le (next_le_start fits))
  · rcases sound.gap other old with passed | ahead
    · exact passed
    · omega

/-- Every block reported is of held positions after RCV.NXT. -/
theorem reported_spec (mem : block ∈ window.reported span) (inside : position ∈ block) :
    window.next < position ∧ Covered (window.store span kept).spans position := by
  have old : ∀ {block : Span}, block ∈ window.sack -> position ∈ block ->
      window.next < position ∧ Covered (window.store span kept).spans position := by
    intro block inSack inside
    obtain ⟨above, held⟩ := sound.sack block inSack
    exact ⟨lt_of_lt_of_le above inside.1, (covered_store fits).mpr (.inl (held position inside))⟩
  rw [reported] at mem
  split at mem
  next ahead =>
    have merged : Covered (merge span [] window.sack) position :=
      ⟨block, mem_of_mem_take mem, inside⟩
    obtain ⟨-, -, -, -, -, -, covers⟩ := merge_spec span [] window.sack
    rcases (covers position).mp merged with stored | none | ⟨other, inSack, inside⟩
    · exact ⟨lt_of_lt_of_le ahead stored.1, covered_place.mpr (.inl stored)⟩
    · exact absurd none covered_nil
    · exact old inSack inside
  next continues => exact old mem inside

theorem sack_store (mem : block ∈ (window.store span kept).sack) : (window.store span kept).next < block.start ∧
    ∀ position ∈ block, Covered (window.store span kept).spans position := by
  obtain ⟨inSack, live⟩ := mem_filter.mp mem
  have live := of_decide_eq_true live
  have held : ∀ position ∈ block, Covered (window.store span kept).spans position := fun position inside =>
    (reported_spec sound fits inSack inside).2
  refine ⟨?_, held⟩
  by_contra notAbove
  obtain ⟨other, stored, low, high⟩ := held (window.store span kept).next ⟨by omega, live⟩
  rcases (advance_store sound fits).2.2 other stored with behind | ahead <;> omega

include guarded

theorem room_store : span.stop ≤ window.released + max (2 ^ 30) maxBuffer := by
  rcases lt_or_ge window.released window.next with unread | read
  · obtain ⟨first, isFirst⟩ : ∃ first, first ∈ window.spans.head? := by
      obtain ⟨first, mem, -⟩ := sound.filled window.released (le_refl _) unread
      exact ⟨_, head?_eq_some_head (ne_nil_of_mem mem)⟩
    have starts := sound.first_start unread isFirst
    have cut : window.limit maxBuffer stop ≤ first.start + maxBuffer := by
      obtain ⟨rest, same⟩ := head?_eq_some_iff.mp isFirst
      rw [limit, same]
      exact min_le_right _ _
    have := fits.le_tail
    simp only at this
    omega
  · have := guarded.ahead
    rw [rcvNxt_of_fits guarded fits] at this
    have := sound.released_le
    have := stop_le fits
    omega

theorem closed_store (got : window.gotFin = true)
    (mem : other ∈ (window.store span kept).spans) : other.stop ≤ finish := by
  have below := (sound.closed got).2
  rcases mem_store fits mem with rfl | old
  · have last : Covered window.spans (other.stop - 1) -> other.stop ≤ finish := by
      rintro ⟨holder, held, inside⟩
      have := below holder held
      have := inside.2
      omega
    by_cases covered : Covered window.spans (other.stop - 1)
    · exact last covered
    · have := other.nonempty
      have := fits.head_le
      have := fits.le_tail
      simp only at *
      have := guarded.beforeFin got (other.stop - 1) (by omega) (by omega) covered
      omega
  · exact below other old

theorem Sound.store : Sound finish maxBuffer (window.store span kept) := by
  obtain ⟨further, passed, gap⟩ := advance_store sound fits
  have same := rcvNxt_of_fits guarded fits
  have ends := stop_le fits
  exact {
    ordered := ordered_store sound fits
    released_le := Nat.le_trans sound.released_le further
    above := by
      intro other mem
      rcases mem_store fits mem with rfl | old
      · exact Nat.le_trans sound.released_le (next_le_start fits)
      · exact sound.above other old
    filled := by
      intro position above below
      rcases Nat.lt_or_ge position window.next with low | high
      · exact (covered_store fits).mpr (.inl (sound.filled position above low))
      · exact passed position high below
    gap := gap
    reach := by
      intro other mem
      rcases mem_store fits mem with rfl | old
      · have := guarded.ahead
        omega
      · have := sound.reach other old
        omega
    room := by
      intro other mem
      rcases mem_store fits mem with rfl | old
      · have roomy := room_store sound guarded fits
        exact roomy
      · exact sound.room other old
    closed := by
      intro got
      refine ⟨?_, fun other mem => closed_store sound guarded fits got mem⟩
      rcases Nat.lt_or_eq_of_le further with more | none
      · obtain ⟨other, mem, inside⟩ := passed ((window.store span kept).next - 1) (by omega) (by omega)
        have := closed_store sound guarded fits got mem
        have := inside.2
        omega
      · rw [← none]
        exact (sound.closed got).1
    ringed := fun got => Nat.lt_of_lt_of_le (sound.ringed got) (Nat.add_le_add_right further _)
    few := Nat.le_trans (length_filter_le _ _) (sound.length_reported span)
    sack := fun block mem => sack_store sound fits mem }

end

/-- The two outcomes of adding a range: it leaves the window as it is, with all of it that lies
in the window held already, or stores a part that fits. -/
theorem add_cases (ordered : Ordered window.spans) (start stop : Nat) :
    (window.add finish maxBuffer start stop = (window, false) ∧
      ∀ position, max start (window.rcvNxt finish) ≤ position ->
        position < window.limit maxBuffer stop -> Covered window.spans position) ∨
    ∃ span kept, window.add finish maxBuffer start stop = (window.store span kept, true) ∧
      window.trimmed finish maxBuffer start stop = ⟨span.start, span.stop, kept⟩ ∧
        Fits window.spans (max start (window.rcvNxt finish)) (window.limit maxBuffer stop)
          ⟨span.start, span.stop, kept⟩ := by
  rcases @trimmed_spec finish maxBuffer window start stop ordered with fits | redundant
  · refine .inr ⟨⟨_, _, fits.nonempty⟩, _, ?_, rfl, fits⟩
    rw [add]
    exact dif_pos fits.nonempty
  · refine .inl ⟨?_, redundant.covered⟩
    rw [add]
    exact (dif_neg (not_lt.mpr redundant.empty)).trans (by rw [redundant.kept_eq])

theorem released_add : (window.add finish maxBuffer start stop).1.released = window.released := by
  rw [add]
  split <;> rfl

theorem gotFin_add : (window.add finish maxBuffer start stop).1.gotFin = window.gotFin := by
  rw [add]
  split <;> rfl

theorem Sound.add (sound : Sound finish maxBuffer window) (guarded : AddGuard finish maxBuffer window start stop) :
    Sound finish maxBuffer (window.add finish maxBuffer start stop).1 := by
  rcases add_cases sound.ordered start stop with ⟨same, -⟩ | ⟨span, kept, same, -, fits⟩
  · rw [same]
    exact sound
  · rw [same]
    exact sound.store guarded fits

theorem covered_add (ordered : Ordered window.spans) :
    Covered (window.add finish maxBuffer start stop).1.spans position ↔ Covered window.spans position ∨
        (max start (window.rcvNxt finish) ≤ position ∧ position < window.limit maxBuffer stop) := by
  rcases add_cases ordered start stop with ⟨same, held⟩ | ⟨span, kept, same, -, fits⟩
  · rw [same]
    exact ⟨.inl, fun either => either.elim id fun within => held position within.1 within.2⟩
  · rw [same]
    exact covered_store fits

theorem released_extract (sound : Sound finish maxBuffer window) (maxSize : Nat) :
    window.released ≤ (window.extract maxSize).released ∧ (window.extract maxSize).released ≤ window.next := by
  have := sound.released_le
  simp only [extract]
  omega

theorem covered_extract (ordered : Ordered window.spans) (maxSize : Nat) :
    Covered (window.extract maxSize).spans position ↔
      Covered window.spans position ∧ (window.extract maxSize).released ≤ position :=
  covered_cut ordered

theorem Sound.extract (sound : Sound finish maxBuffer window) (maxSize : Nat) :
    Sound finish maxBuffer (window.extract maxSize) := by
  obtain ⟨further, behind⟩ := released_extract sound maxSize
  exact {
    ordered := sound.ordered.cut _
    released_le := behind
    above := fun span mem => (mem_cut sound.ordered mem).1
    filled := fun position above below => (covered_extract sound.ordered maxSize).mpr
      ⟨sound.filled position (le_trans further above) below, above⟩
    gap := by
      intro span mem
      obtain ⟨-, whole, old, stops, starts, -⟩ := mem_cut sound.ordered mem
      rcases sound.gap whole old with passed | ahead
      · exact .inl (by rwa [← stops])
      · exact .inr (lt_of_lt_of_le ahead starts)
    reach := by
      intro span mem
      obtain ⟨-, whole, old, stops, -⟩ := mem_cut sound.ordered mem
      rw [← stops]
      exact sound.reach whole old
    room := by
      intro span mem
      obtain ⟨-, whole, old, stops, -⟩ := mem_cut sound.ordered mem
      have := sound.room whole old
      omega
    closed := by
      intro got
      refine ⟨(sound.closed got).1, fun span mem => ?_⟩
      obtain ⟨-, whole, old, stops, -⟩ := mem_cut sound.ordered mem
      rw [← stops]
      exact (sound.closed got).2 whole old
    ringed := sound.ringed
    few := sound.few
    sack := by
      intro block mem
      obtain ⟨above, held⟩ := sound.sack block mem
      refine ⟨above, fun position inside => (covered_extract sound.ordered maxSize).mpr ⟨held position inside, ?_⟩⟩
      have := inside.1
      omega }

theorem Sound.setFin (sound : Sound finish maxBuffer window)
    (closes : window.next ≤ finish ∧ ∀ span ∈ window.spans, span.stop ≤ finish)
    (ringed : finish < window.next + 2 ^ 32) : Sound finish maxBuffer window.setFin :=
  { sound with
    closed := fun _ => closes
    ringed := fun _ => ringed }

end Window

end Ns3.Internet
