import Ns3.Internet.TcpRxBuffer.Buffer
import Ns3.Internet.TcpRxBuffer.Window

/-!
# The buffer as a window over a stream

`Window.view` is the buffer that stands for a window: positions become sequence numbers, and spans
slices of the stream. On sound windows, with what is added close enough to RCV.NXT, the operations
of the buffer are those of the window, and no assertion fails.
-/

namespace Ns3.Internet

open Ns3.Network (SequenceNumber32)
open Ns3.Semantics Ns3.Semantics.Spans UInt32 Nat TcpRxBuffer

/-- A byte stream that ends at `finish`, numbered from `isn`. -/
structure ByteStream (Byte : Type) where
  isn : SequenceNumber32
  byte : Nat -> Byte
  finish : Nat

namespace ByteStream

variable {Byte : Type} (stream : ByteStream Byte)

/-- The sequence number of a position. -/
def seq (position : Nat) : SequenceNumber32 :=
  stream.isn + UInt32.ofNat position

/-- The bytes from one position to another. -/
def slice (start stop : Nat) : List Byte :=
  (List.range' start (stop - start)).map stream.byte

def entry (span : Span) : Entry Byte :=
  (stream.seq span.start, stream.slice span.start span.stop)

def block (span : Span) : SackBlock :=
  ⟨stream.seq span.start, stream.seq span.stop⟩

variable {stream} {start stop middle x y low : Nat}

@[simp]
theorem length_slice : (stream.slice start stop).length = stop - start := by
  rw [slice, List.length_map, List.length_range']

@[simp]
theorem getSize_slice : getSize (stream.slice start stop) = ofNat (stop - start) := by
  rw [getSize, length_slice]

theorem length_entry (span : Span) : (stream.entry span).2.length = span.length :=
  length_slice

theorem slice_self : stream.slice start start = [] := by
  rw [slice, Nat.sub_self, List.range'_zero, List.map_nil]

theorem slice_append (first : start ≤ middle) (second : middle ≤ stop) :
    stream.slice start middle ++ stream.slice middle stop = stream.slice start stop := by
  rw [slice, slice, slice, ← List.map_append, show stop - start = middle - start + (stop - middle) by omega,
    ← List.range'_append_1, Nat.add_sub_cancel' first]

theorem toNat_ofNat {n : Nat} (small : n < 2 ^ 32) : (ofNat n).toNat = n :=
  toNat_ofNat_of_lt' small

theorem createFragment_slice (first : start ≤ x) (ordered : x ≤ y) (last : y ≤ stop) (fits : stop - start < 2 ^ 32) :
    createFragment (stream.slice start stop) (ofNat (x - start)) (ofNat (y - x)) = some (stream.slice x y) := by
  have inside : ofNat (x - start) + ofNat (y - x) ≤ getSize (stream.slice start stop) := by
    rw [getSize_slice, ← ofNat_add, le_iff_toNat_le, toNat_ofNat (by omega), toNat_ofNat fits]
    omega
  rw [createFragment, if_pos inside, toNat_ofNat (by omega), toNat_ofNat (by omega), slice, slice,
    ← List.map_drop, ← List.map_take, List.drop_range', List.take_range'_of_length_ge (by omega),
    Nat.mul_one, Nat.add_sub_cancel' first]

theorem seq_add (position more : Nat) : stream.seq position + ofNat more = stream.seq (position + more) :=
  SequenceNumber32.offset_add ..

/-- Positions that stay less than half the ring of sequence numbers ahead of one of them. -/
def Near (low x : Nat) : Prop :=
  low ≤ x ∧ x < low + 2 ^ 31

theorem seq_lt_iff (nearX : Near low x) (nearY : Near low y) : stream.seq x < stream.seq y ↔ x < y := by
  obtain ⟨_, _⟩ := nearX
  obtain ⟨_, _⟩ := nearY
  exact SequenceNumber32.offset_lt_iff (by omega) (by omega)

theorem seq_le_iff (nearX : Near low x) (nearY : Near low y) : stream.seq x ≤ stream.seq y ↔ x ≤ y := by
  obtain ⟨_, _⟩ := nearX
  obtain ⟨_, _⟩ := nearY
  exact SequenceNumber32.offset_le_iff (by omega) (by omega)

theorem seq_inj (nearX : Near low x) (nearY : Near low y) : stream.seq x = stream.seq y ↔ x = y := by
  obtain ⟨_, _⟩ := nearX
  obtain ⟨_, _⟩ := nearY
  exact SequenceNumber32.offset_inj (by omega) (by omega)

theorem seq_max (low : x < y + 2 ^ 31) (high : y < x + 2 ^ 31) :
    (if stream.seq x < stream.seq y then stream.seq y else stream.seq x) = stream.seq (max x y) := by
  have ordered := @SequenceNumber32.offset_lt_iff stream.isn x y low high
  split
  next less => rw [max_eq_right (le_of_lt (ordered.mp less))]
  next notLess => rw [max_eq_left (not_lt.mp (mt ordered.mpr notLess))]

theorem seq_min (low : x < y + 2 ^ 31) (high : y < x + 2 ^ 31) :
    (if stream.seq x < stream.seq y then stream.seq x else stream.seq y) = stream.seq (min x y) := by
  have ordered := @SequenceNumber32.offset_lt_iff stream.isn x y low high
  split
  next less => rw [min_eq_left (le_of_lt (ordered.mp less))]
  next notLess => rw [min_eq_right (not_lt.mp (mt ordered.mpr notLess))]

@[simp]
theorem entry_end (span : Span) : (stream.entry span).1 + getSize (stream.entry span).2 = stream.seq span.stop := by
  have := span.nonempty
  rw [entry, getSize_slice, seq_add, Nat.add_sub_cancel' (by omega)]

end ByteStream

namespace TcpRxBuffer

open ByteStream (Near)

variable {Byte : Type} {stream : ByteStream Byte} {low head tail : Nat} {spans : List Span}

/-- The local variables of `Add` for a trimmed range, with `more` bytes held elsewhere. -/
def overlapOf (stream : ByteStream Byte) (more : Nat) (trimmed : Trimmed) : Overlap Byte where
  headSeq := stream.seq trimmed.head
  tailSeq := stream.seq trimmed.tail
  size := UInt32.ofNat (more + total trimmed.kept)
  data := trimmed.kept.map stream.entry

theorem overlapOf_keep (more : Nat) (span : Span) (trimmed : Trimmed) :
    (overlapOf stream (more + span.length) trimmed).keep (stream.entry span) =
      overlapOf stream more (trimmed.keep span) := by
  simp only [overlapOf, Overlap.keep, Trimmed.keep, total_cons, List.map_cons, add_assoc]

theorem removeOverlap_entries (more : Nat) (near : ∀ span ∈ spans, Near low span.start ∧ Near low span.stop)
    (nearHead : Near low head) (nearTail : Near low tail) :
    removeOverlap (stream.seq head) (stream.seq tail) (UInt32.ofNat (more + total spans))
      (spans.map stream.entry) = overlapOf stream more (trim head tail spans) := by
  induction spans generalizing head tail more with
  | nil => rfl
  | cons first rest ih =>
    obtain ⟨nearStart, nearStop⟩ := near first List.mem_cons_self
    have later : ∀ span ∈ rest, Near low span.start ∧ Near low span.stop := fun span mem =>
      near span (List.mem_cons_of_mem _ mem)
    have split : more + total (first :: rest) = more + first.length + total rest := by
      rw [total_cons, add_assoc]
    have starts : (stream.entry first).1 = stream.seq first.start := rfl
    have ends : stream.seq first.start + getSize (stream.entry first).2 = stream.seq first.stop :=
      ByteStream.entry_end first
    rw [List.map_cons, removeOverlap, trim]
    simp only [ends, starts, gt_iff_lt, ge_iff_le, ByteStream.seq_le_iff nearStart nearTail,
      ByteStream.seq_lt_iff nearHead nearStop, ByteStream.seq_lt_iff nearHead nearStart,
      ByteStream.seq_lt_iff nearStop nearTail, ByteStream.seq_le_iff nearStart nearHead,
      ByteStream.seq_le_iff nearTail nearStop]
    by_cases reaches : first.start ≤ tail
    · simp only [if_pos reaches]
      by_cases overlaps : head < first.stop
      · simp only [if_pos overlaps]
        by_cases inside : head < first.start ∧ first.stop < tail
        · have size : UInt32.ofNat (more + total (first :: rest)) - getSize (stream.entry first).2 =
              UInt32.ofNat (more + total rest) := by
            rw [ByteStream.entry, ByteStream.getSize_slice, split, ← Span.length, add_right_comm,
              UInt32.ofNat_add _ first.length, UInt32.add_sub_cancel]
          simp only [if_pos inside, size]
          exact ih more later nearHead nearTail
        · simp only [if_neg inside]
          rw [split, ← overlapOf_keep, ← apply_ite stream.seq, ← apply_ite stream.seq,
            ih _ later]
          · split <;> assumption
          · split <;> assumption
      · simp only [if_neg overlaps]
        rw [split, ← overlapOf_keep, ih _ later nearHead nearTail]
    · simp only [if_neg reaches]
      rfl

theorem mergeBlocks_blocks (front : Span) (passed ahead : List Span)
    (nearFront : Near low front.start ∧ Near low front.stop)
    (near : ∀ span ∈ passed ++ ahead, Near low span.start ∧ Near low span.stop) :
    mergeBlocks (stream.block front) (passed.map stream.block) (ahead.map stream.block) =
      some ((merge front passed ahead).map stream.block) := by
  induction front, passed, ahead using merge.induct with
  | case1 front passed => rw [List.map_nil, mergeBlocks, merge, List.map_cons]
  | case2 front passed current rest proper properCurrent left ih =>
    have nearCurrent := near current (List.mem_append_right _ List.mem_cons_self)
    have touches : (stream.block front).first = (stream.block current).second :=
      congrArg stream.seq left
    have asserted : (stream.block current).first < (stream.block front).second :=
      (ByteStream.seq_lt_iff nearCurrent.1 nearFront.2).mpr (by omega)
    have merged := ih ⟨nearCurrent.1, nearFront.2⟩ fun span mem => near span (mem_of_mem_middle mem)
    rw [List.map_nil, List.map_append] at merged
    rw [List.map_cons, mergeBlocks, merge, dif_pos left, if_pos touches, if_pos asserted]
    exact merged
  | case3 front passed current rest proper properCurrent left right ih =>
    have nearCurrent := near current (List.mem_append_right _ List.mem_cons_self)
    have notLeft : (stream.block front).first ≠ (stream.block current).second :=
      mt (ByteStream.seq_inj nearFront.1 nearCurrent.2).mp left
    have touches : (stream.block front).second = (stream.block current).first :=
      congrArg stream.seq right
    have asserted : (stream.block front).first < (stream.block current).second :=
      (ByteStream.seq_lt_iff nearFront.1 nearCurrent.2).mpr (by omega)
    have merged := ih ⟨nearFront.1, nearCurrent.2⟩ fun span mem => near span (mem_of_mem_middle mem)
    rw [List.map_nil, List.map_append] at merged
    rw [List.map_cons, mergeBlocks, merge, dif_neg left, dif_pos right, if_neg notLeft,
      if_pos touches, if_pos asserted]
    exact merged
  | case4 front passed current rest _ _ left right ih =>
    have nearCurrent := near current (List.mem_append_right _ List.mem_cons_self)
    have notLeft : (stream.block front).first ≠ (stream.block current).second :=
      mt (ByteStream.seq_inj nearFront.1 nearCurrent.2).mp left
    have notRight : (stream.block front).second ≠ (stream.block current).first :=
      mt (ByteStream.seq_inj nearFront.2 nearCurrent.1).mp right
    have merged := ih nearFront (by rwa [List.append_assoc, List.singleton_append])
    rw [List.map_append, List.map_singleton] at merged
    rw [List.map_cons, mergeBlocks, merge, dif_neg left, dif_neg right, if_neg notLeft, if_neg notRight]
    exact merged

theorem clearSackList_blocks {sack : List Span} {next : Nat} (nearNext : Near low next)
    (near : ∀ block ∈ sack, Near low block.start ∧ Near low block.stop) :
    clearSackList (stream.seq next) (sack.map stream.block) =
      some ((sack.filter fun block => next < block.stop).map stream.block) := by
  have proper : ∀ block ∈ sack.map stream.block, block.first < block.second := by
    intro block mem
    obtain ⟨span, inSack, rfl⟩ := List.mem_map.mp mem
    exact (ByteStream.seq_lt_iff (near span inSack).1 (near span inSack).2).mpr span.nonempty
  rw [clearSackList, if_pos proper, List.filter_map]
  congr 2
  refine List.filter_congr fun block inSack => ?_
  simp only [Function.comp_apply, ByteStream.block, ByteStream.seq_le_iff (near block inSack).2 nearNext, not_le]

/-- The buffer after RCV.NXT has moved from one position to another. -/
def moved (stream : ByteStream Byte) (buffer : TcpRxBuffer Byte) (next reached : Nat) (sack : List Span) :
    TcpRxBuffer Byte :=
  { buffer with
    nextRxSeq := stream.seq reached
    availBytes := buffer.availBytes + UInt32.ofNat (reached - next)
    sackList := (sack.filter fun block => reached < block.stop).map stream.block }

section

variable {buffer : TcpRxBuffer Byte} {next middle reached : Nat} {sack : List Span}

theorem moved_self (live : ∀ block ∈ sack, next < block.stop) (isNext : buffer.nextRxSeq = stream.seq next)
    (isSack : buffer.sackList = sack.map stream.block) : moved stream buffer next next sack = buffer := by
  rw [moved, List.filter_eq_self.mpr fun block mem => decide_eq_true (live block mem), ← isNext,
    ← isSack, Nat.sub_self, show ofNat 0 = 0 from rfl, add_zero]

theorem moved_moved (first : next ≤ middle) (second : middle ≤ reached) :
    moved stream (moved stream buffer next middle sack) middle reached
        (sack.filter fun block => middle < block.stop) = moved stream buffer next reached sack := by
  have avail : ofNat (middle - next) + ofNat (reached - middle) = ofNat (reached - next) := by
    rw [← ofNat_add]
    congr 1
    omega
  simp only [moved, List.filter_filter, add_assoc, avail]
  congr 2
  refine List.filter_congr fun block _ => ?_
  rw [← Bool.decide_and]
  congr 1
  exact propext (by omega)

theorem receiveInOrder_entries (near : ∀ span ∈ spans, Near low span.start ∧ Near low span.stop)
    (nearNext : Near low next) (nearSack : ∀ block ∈ sack, Near low block.start ∧ Near low block.stop)
    (live : ∀ block ∈ sack, next < block.stop) (isNext : buffer.nextRxSeq = stream.seq next)
    (isSack : buffer.sackList = sack.map stream.block) :
    receiveInOrder buffer (spans.map stream.entry) = some (moved stream buffer next (advance next spans) sack) := by
  induction spans generalizing buffer next sack with
  | nil =>
    rw [List.map_nil, receiveInOrder, advance, moved_self live isNext isSack]
  | cons first rest ih =>
    obtain ⟨nearStart, nearStop⟩ := near first List.mem_cons_self
    have later : ∀ span ∈ rest, Near low span.start ∧ Near low span.stop := fun span mem =>
      near span (List.mem_cons_of_mem _ mem)
    have starts : (stream.entry first).1 = stream.seq first.start := rfl
    have ends : stream.seq first.start + getSize (stream.entry first).2 = stream.seq first.stop :=
      ByteStream.entry_end first
    have := first.nonempty
    rw [List.map_cons, receiveInOrder, advance]
    simp only [ends, starts, isNext, gt_iff_lt, ByteStream.seq_lt_iff nearStart nearNext,
      ByteStream.seq_lt_iff nearNext nearStart]
    split
    next behind => exact ih later nearNext nearSack live isNext isSack
    next notBehind =>
      split
      next ahead => rw [moved_self live isNext isSack]
      next continues =>
        have isStart : first.start = next := by omega
        have further := le_advance first.stop rest
        rw [isSack, clearSackList_blocks nearStop nearSack]
        have size : getSize (stream.entry first).2 = ofNat (first.stop - next) := by
          rw [ByteStream.entry, ByteStream.getSize_slice, isStart]
        rw [size]
        refine (ih later nearStop (fun block mem => nearSack block (List.mem_filter.mp mem).1)
          (fun block mem => of_decide_eq_true (List.mem_filter.mp mem).2) rfl rfl).trans ?_
        exact congrArg some (moved_moved (by omega) further)

end

/-! ## Storing -/

/-- No packet kept starts at the head of a range that overlaps none of them. -/
theorem find_entries {span : Span} (near : ∀ other ∈ spans, Near low other.start ∧ Near low other.stop)
    (nearSpan : Near low span.start) (disjoint : ∀ other ∈ spans, span.Disjoint other) :
    find (stream.seq span.start) (spans.map stream.entry) = none := by
  rw [find, List.find?_eq_none]
  intro entry mem
  obtain ⟨other, inSpans, rfl⟩ := List.mem_map.mp mem
  simp only [ByteStream.entry, ByteStream.seq_lt_iff (near other inSpans).1 nearSpan,
    ByteStream.seq_lt_iff nearSpan (near other inSpans).1, decide_eq_true_eq]
  have := span.nonempty
  have := other.nonempty
  rcases disjoint other inSpans with before | after <;> omega

theorem assign_entries {span : Span} (near : ∀ other ∈ spans, Near low other.start ∧ Near low other.stop)
    (nearSpan : Near low span.start) (disjoint : ∀ other ∈ spans, span.Disjoint other) :
    assign (stream.seq span.start) (stream.slice span.start span.stop) (spans.map stream.entry) =
      (place span spans).map stream.entry := by
  induction spans with
  | nil => rfl
  | cons first rest ih =>
    obtain ⟨nearStart, nearStop⟩ := near first List.mem_cons_self
    have starts : (stream.entry first).1 = stream.seq first.start := rfl
    have apart := disjoint first List.mem_cons_self
    have := span.nonempty
    have := first.nonempty
    rw [List.map_cons, assign, place]
    simp only [starts, ByteStream.seq_lt_iff nearStart nearSpan, ByteStream.seq_lt_iff nearSpan nearStart]
    split
    next before =>
      rw [List.map_cons, ih (fun other mem => near other (List.mem_cons_of_mem _ mem))
        fun other mem => disjoint other (List.mem_cons_of_mem _ mem)]
    next notBefore =>
      rw [if_pos (by rcases apart with apart | apart <;> omega)]
      rfl

/-! ## Taking -/

theorem cut_of_after {position : Nat} (after : ∀ span ∈ spans, position ≤ span.start) :
    cut position spans = spans := by
  cases spans with
  | nil => rfl
  | cons first rest =>
    have := after first List.mem_cons_self
    have := first.nonempty
    rw [cut, dif_neg (by omega), if_neg (by omega)]

theorem erase_assign_entries {span left : Span} (nearSpan : Near low span.start)
    (nearLeft : Near low left.start) (further : span.start < left.start)
    (near : ∀ other ∈ spans, Near low other.start) (after : ∀ other ∈ spans, left.start < other.start) :
    erase (stream.seq span.start) (assign (stream.seq left.start) (stream.slice left.start left.stop)
      (stream.entry span :: spans.map stream.entry)) = (left :: spans).map stream.entry := by
  have starts : (stream.entry span).1 = stream.seq span.start := rfl
  have placed : assign (stream.seq left.start) (stream.slice left.start left.stop)
      (spans.map stream.entry) = (left :: spans).map stream.entry := by
    cases spans with
    | nil => rfl
    | cons first rest =>
      have beyond := after first List.mem_cons_self
      have nearFirst := near first List.mem_cons_self
      have firstStarts : (stream.entry first).1 = stream.seq first.start := rfl
      rw [List.map_cons, assign, firstStarts, if_neg (mt (ByteStream.seq_lt_iff nearFirst nearLeft).mp (by omega)),
        if_pos ((ByteStream.seq_lt_iff nearLeft nearFirst).mpr beyond)]
      rfl
  rw [assign, starts, if_pos ((ByteStream.seq_lt_iff nearSpan nearLeft).mpr further), placed, erase,
    List.eraseP_cons_of_pos (by rw [starts]; exact decide_eq_true rfl)]

theorem ofNat_sub {x y : Nat} (le : y ≤ x) : UInt32.ofNat x - UInt32.ofNat y = UInt32.ofNat (x - y) := by
  obtain ⟨more, rfl⟩ := Nat.exists_eq_add_of_le le
  rw [Nat.add_sub_cancel_left, Nat.add_comm, UInt32.ofNat_add, UInt32.add_sub_cancel]

/-- The buffer after `count` bytes have been taken, when `spans` are left. -/
def taken (stream : ByteStream Byte) (buffer : TcpRxBuffer Byte) (count : Nat) (spans : List Span) :
    TcpRxBuffer Byte :=
  { buffer with
    data := spans.map stream.entry
    size := buffer.size - UInt32.ofNat count
    availBytes := buffer.availBytes - UInt32.ofNat count }

theorem extractFrom_entries {buffer : TcpRxBuffer Byte} {start next count : Nat} {outPkt : List Byte}
    (ordered : Ordered spans) (near : ∀ span ∈ spans, Near low span.start ∧ Near low span.stop)
    (above : ∀ span ∈ spans, start ≤ span.start)
    (filled : ∀ position, start ≤ position -> position < start + count -> Covered spans position)
    (nearNext : Near low next) (isNext : buffer.nextRxSeq = stream.seq next) (behind : start + count ≤ next)
    (small : count < 2 ^ 32) :
    extractFrom buffer (ofNat count) outPkt (spans.map stream.entry) =
      some (taken stream buffer count (cut (start + count) spans),
        outPkt ++ stream.slice start (start + count)) := by
  have nothing (buffer : TcpRxBuffer Byte) (spans : List Span) :
      taken stream buffer 0 spans = { buffer with data := spans.map stream.entry } := by
    rw [taken, show ofNat 0 = 0 from rfl, sub_zero, sub_zero]
  induction spans generalizing buffer start count outPkt with
  | nil =>
    rcases Nat.eq_zero_or_pos count with rfl | pos
    · rw [List.map_nil, extractFrom, if_pos (show ofNat 0 = 0 from rfl), Nat.add_zero,
        ByteStream.slice_self, List.append_nil,
        nothing]
      rfl
    · exact absurd (filled start (Nat.le_refl _) (by omega)) covered_nil
  | cons first rest ih =>
    obtain ⟨follow, rested⟩ := ordered_cons.mp ordered
    obtain ⟨nearStart, nearStop⟩ := near first List.mem_cons_self
    have later : ∀ span ∈ rest, Near low span.start ∧ Near low span.stop := fun span mem =>
      near span (List.mem_cons_of_mem _ mem)
    rw [List.map_cons, extractFrom]
    rcases Nat.eq_zero_or_pos count with rfl | pos
    · rw [if_pos (show ofNat 0 = 0 from rfl), Nat.add_zero, ByteStream.slice_self, List.append_nil,
        nothing, cut_of_after above,
        List.map_cons]
    have begins : first.start = start := first_start ordered above filled (by omega)
    have starts : (stream.entry first).1 = stream.seq start := congrArg stream.seq begins
    have size : getSize (stream.entry first).2 = ofNat first.length := ByteStream.getSize_slice
    have := first.nonempty
    have length : first.length = first.stop - first.start := rfl
    obtain ⟨_, _⟩ := nearStart
    obtain ⟨_, _⟩ := nearStop
    have notZero : ofNat count ≠ 0 := by
      intro zero
      have := congrArg toNat zero
      rw [ByteStream.toNat_ofNat small] at this
      exact absurd this (by simp; omega)
    have asserted : (stream.entry first).1 ≤ buffer.nextRxSeq := by
      rw [isNext]
      exact (ByteStream.seq_le_iff ⟨by omega, by omega⟩ nearNext).mpr (by omega)
    have whole : ofNat first.length ≤ ofNat count ↔ first.length ≤ count := by
      rw [le_iff_toNat_le, ByteStream.toNat_ofNat (by omega), ByteStream.toNat_ofNat small]
    rw [if_neg notZero, if_pos asserted]
    simp only [size]
    by_cases fits : first.length ≤ count
    · -- The whole packet is taken.
      have packet : (stream.entry first).2 = stream.slice start first.stop := by
        rw [ByteStream.entry, begins]
      have reach : start + count = first.stop + (count - first.length) := by omega
      have twice (n : UInt32) : n - ofNat first.length - ofNat (count - first.length) =
          n - ofNat count := by
        rw [← ofNat_sub fits]
        grind
      rw [if_pos (whole.mpr fits), ofNat_sub fits, cut, dif_pos (by omega), packet, reach]
      refine (@ih { buffer with
          size := buffer.size - ofNat first.length
          availBytes := buffer.availBytes - ofNat first.length }
        first.stop (count - first.length) _ rested later follow ?_ isNext (by omega) (by omega)).trans ?_
      · intro position high low
        rcases covered_cons.mp (filled position (by omega) (by omega)) with within | covered
        · exact absurd within.2 (by omega)
        · exact covered
      · simp only [taken, List.append_assoc, ByteStream.slice_append (show start ≤ first.stop by omega)
          (Nat.le_add_right _ _), twice]
    · -- A part of the packet is taken, and nothing after it.
      have packet : (stream.entry first).2 = stream.slice start first.stop := by
        rw [ByteStream.entry, begins]
      have room : start + count < first.stop := by omega
      have front : createFragment (stream.slice start first.stop) 0 (ofNat count) =
          some (stream.slice start (start + count)) := by
        have fragment := @ByteStream.createFragment_slice _ stream start first.stop start (start + count)
          (Nat.le_refl _) (by omega) (by omega) (by omega)
        rwa [Nat.sub_self, Nat.add_sub_cancel_left] at fragment
      have back : createFragment (stream.slice start first.stop) (ofNat count)
          (ofNat first.length - ofNat count) =
          some (stream.slice (start + count) first.stop) := by
        have fragment := @ByteStream.createFragment_slice _ stream start first.stop (start + count)
          first.stop (by omega) (by omega) (Nat.le_refl _) (by omega)
        rwa [Nat.add_sub_cancel_left, ← Nat.sub_sub, ← begins, ← length, begins,
          ← ofNat_sub (by omega)] at fragment
      have replaced : erase (stream.entry first).1
          (assign ((stream.entry first).1 + ofNat count) (stream.slice (start + count) first.stop)
            (stream.entry first :: rest.map stream.entry)) =
          ((⟨start + count, first.stop, room⟩ : Span) :: rest).map stream.entry := by
        have key : (stream.entry first).1 + ofNat count = stream.seq (start + count) := by
          rw [starts, ByteStream.seq_add]
        rw [key]
        refine @erase_assign_entries _ stream low rest first ⟨start + count, first.stop, room⟩
          ⟨by omega, by omega⟩ ⟨by simp only; omega, by simp only; omega⟩ (by simp only; omega)
          (fun other mem => (later other mem).1) fun other mem => ?_
        have := follow other mem
        simp only
        omega
      rw [if_neg (mt whole.mp fits), cut, dif_neg (by omega), if_pos (by omega)]
      simp only [packet, front, back, Option.bind_eq_bind, Option.bind_some, Option.pure_def]
      rw [replaced, taken]

end TcpRxBuffer

/-! ## Windows -/

/-- The buffer that stands for a window over a stream. -/
def Window.view {Byte : Type} (stream : ByteStream Byte) (maxBuffer : UInt32) (window : Window) :
    TcpRxBuffer Byte where
  nextRxSeq := stream.seq (window.rcvNxt stream.finish)
  finSeq := if window.gotFin then stream.seq stream.finish else ⟨0⟩
  gotFin := window.gotFin
  size := UInt32.ofNat (total window.spans)
  maxBuffer := maxBuffer
  availBytes := UInt32.ofNat (window.next - window.released)
  data := window.spans.map stream.entry
  sackList := window.sack.map stream.block

namespace Window

open ByteStream (Near)

variable {Byte : Type} {stream : ByteStream Byte} {maxBuffer : UInt32} {window : Window} {start stop : Nat}

section

variable (sound : Sound stream.finish maxBuffer.toNat window)
include sound

section

variable (small : maxBuffer.toNat + 1 < 2 ^ 31)
include small

theorem Sound.near : ∀ span ∈ window.spans, Near window.released span.start ∧ Near window.released span.stop := by
  intro span mem
  have := sound.above span mem
  have := sound.room span mem
  have := span.nonempty
  exact ⟨⟨by omega, by omega⟩, ⟨by omega, by omega⟩⟩

theorem Sound.nearSack :
    ∀ block ∈ window.sack, Near window.released block.start ∧ Near window.released block.stop := by
  intro block mem
  obtain ⟨above, held⟩ := sound.sack block mem
  have := block.nonempty
  have := sound.released_le
  obtain ⟨span, inSpans, inside⟩ := held (block.stop - 1) ⟨by omega, by omega⟩
  have := (sound.near small span inSpans).2.2
  have := inside.2
  exact ⟨⟨by omega, by omega⟩, ⟨by omega, by omega⟩⟩

theorem Sound.nearRcvNxt : Near window.released (window.rcvNxt stream.finish) := by
  have := sound.released_le
  have := @next_le_rcvNxt stream.finish window
  have := @rcvNxt_le stream.finish window
  refine ⟨by omega, ?_⟩
  rcases lt_or_ge window.released window.next with unread | read
  · obtain ⟨span, inSpans, inside⟩ := sound.filled (window.next - 1) (by omega) (by omega)
    have := sound.room span inSpans
    have := inside.2
    omega
  · omega

theorem Sound.nearNext : Near window.released window.next :=
  ⟨sound.released_le, lt_of_le_of_lt next_le_rcvNxt (sound.nearRcvNxt small).2⟩

/-- A block is reported of a span stored ahead of RCV.NXT. -/
theorem Sound.reportSack_eq {buffer : TcpRxBuffer Byte} {span : Span}
    (near : Near window.released span.start ∧ Near window.released span.stop)
    (isNext : buffer.nextRxSeq = stream.seq window.next)
    (isSack : buffer.sackList = window.sack.map stream.block) :
    buffer.reportSack (stream.seq span.start) (stream.seq span.stop) =
      some { buffer with sackList := (window.reported span).map stream.block } := by
  have later : stream.seq span.start > buffer.nextRxSeq ↔ window.next < span.start := by
    rw [isNext]
    exact ByteStream.seq_lt_iff (sound.nearNext small) near.1
  rw [reportSack]
  by_cases ahead : window.next < span.start
  case neg =>
    rw [if_neg (mt later.mp ahead), reported, if_neg ahead, ← isSack]
  rw [if_pos (later.mpr ahead)]
  have merged : mergeBlocks ⟨stream.seq span.start, stream.seq span.stop⟩ []
      (window.sack.map stream.block) = some ((merge span [] window.sack).map stream.block) :=
    mergeBlocks_blocks span [] window.sack near (sound.nearSack small)
  have four : (if ((merge span [] window.sack).map stream.block).length > 4 then
      ((merge span [] window.sack).map stream.block).dropLast
      else (merge span [] window.sack).map stream.block) = (window.reported span).map stream.block := by
    obtain ⟨first, others, same, -, -, shorter, -⟩ := merge_spec span [] window.sack
    have few := sound.few
    have atMost : (merge span [] window.sack).length ≤ 5 := by
      rw [same, List.length_cons]
      rw [List.length_nil] at shorter
      omega
    rw [reported, if_pos ahead, List.map_take, List.length_map]
    split
    next many =>
      rw [List.dropLast_eq_take, List.length_map, show (merge span [] window.sack).length - 1 = 4 by omega]
    next notMany =>
      rw [List.take_of_length_le]
      rw [List.length_map]
      omega
  simp only [updateSackList, isSack, guard, if_pos (later.mpr ahead), merged, Option.pure_def,
    Option.bind_eq_bind, Option.bind_some]
  exact congrArg some (congrArg (fun sackList => { buffer with sackList := sackList }) four)

end

end

section

variable {span : Span} {kept : List Span} (sound : Sound stream.finish maxBuffer.toNat window)
  (guarded : AddGuard stream.finish maxBuffer.toNat window start stop)
  (fits : Fits window.spans (max start (window.rcvNxt stream.finish))
    (window.limit maxBuffer.toNat stop) ⟨span.start, span.stop, kept⟩)
  (small : maxBuffer.toNat + 1 < 2 ^ 31)
include sound guarded fits

/-- The FIN is counted as soon as everything before it has been received. -/
theorem finSeq_store : ((window.store span kept).gotFin = true ∧ stream.seq (window.store span kept).next =
      (if window.gotFin then stream.seq stream.finish else ⟨0⟩)) ↔
    ((window.store span kept).gotFin = true ∧ (window.store span kept).next = stream.finish) := by
  refine and_congr_right fun got => ?_
  have stored := sound.store guarded fits
  have := (stored.closed got).1
  have := stored.ringed got
  have got : window.gotFin = true := got
  rw [if_pos got]
  exact SequenceNumber32.offset_inj (by omega) (by omega)

theorem nextRxSeq_store : (if (window.store span kept).gotFin = true ∧ stream.seq (window.store span kept).next =
        (if window.gotFin then stream.seq stream.finish else ⟨0⟩)
      then stream.seq (window.store span kept).next + (1 : UInt32)
      else stream.seq (window.store span kept).next) =
    stream.seq ((window.store span kept).rcvNxt stream.finish) := by
  simp only [finSeq_store sound guarded fits, rcvNxt]
  split
  next counted => exact ByteStream.seq_add _ 1
  next notCounted => rfl

include small in
theorem store_view : ({ window.view stream maxBuffer with
        size := ofNat (total kept)
        data := kept.map stream.entry } : TcpRxBuffer Byte).store (stream.seq span.start)
      (stream.seq span.stop) (stream.slice span.start span.stop) =
        some ((window.store span kept).view stream maxBuffer) := by
  have stored := sound.store guarded fits
  have near : ∀ other ∈ place span kept, Near window.released other.start ∧ Near window.released other.stop :=
    stored.near small
  have nearSpan := near span (mem_place.mpr (.inl rfl))
  have nearKept : ∀ other ∈ kept, Near window.released other.start ∧ Near window.released other.stop :=
    fun other mem => near other (mem_place.mpr (.inr mem))
  have disjoint : ∀ other ∈ kept, span.Disjoint other := fun other mem => (fits.apart other mem).symm
  have isNext : window.rcvNxt stream.finish = window.next := rcvNxt_of_fits guarded fits
  have nearNext := sound.nearNext small
  have atStop : ∀ block ∈ window.reported span, block.stop - 1 ∈ block := fun block _ => by
    have := block.nonempty
    exact ⟨by omega, by omega⟩
  have live : ∀ block ∈ window.reported span, window.next < block.stop := by
    intro block mem
    obtain ⟨ahead, -⟩ := reported_spec sound fits mem (atStop block mem)
    omega
  have nearReported : ∀ block ∈ window.reported span,
      Near window.released block.start ∧ Near window.released block.stop := by
    intro block mem
    obtain ⟨ahead, -⟩ := reported_spec sound fits mem block.start_mem
    obtain ⟨other, stored, inside⟩ := (reported_spec sound fits mem (atStop block mem)).2
    have := (near other stored).2.2
    have := inside.2
    have := block.nonempty
    have := sound.released_le
    exact ⟨⟨by omega, by omega⟩, ⟨by omega, by omega⟩⟩
  simp only [TcpRxBuffer.store, guard, view, isNext, TcpRxBuffer.find_entries nearKept nearSpan.1 disjoint,
    TcpRxBuffer.assign_entries nearKept nearSpan.1 disjoint, Option.isNone_none, if_true,
    Option.pure_def, Option.bind_eq_bind, Option.bind_some]
  rw [sound.reportSack_eq small nearSpan rfl rfl, Option.bind_some, TcpRxBuffer.receive,
    TcpRxBuffer.receiveInOrder_entries near nearNext nearReported live rfl rfl]
  refine congrArg some (TcpRxBuffer.ext ?_ rfl rfl ?_ rfl ?_ rfl rfl)
  · exact nextRxSeq_store sound guarded fits
  · change ofNat (total kept) + getSize (stream.slice span.start span.stop) = ofNat (total (place span kept))
    rw [ByteStream.getSize_slice, ← ofNat_add, total_place, add_comm, Span.length]
  · have := sound.released_le
    have := le_advance window.next (place span kept)
    change ofNat (window.next - window.released) + ofNat (advance window.next (place span kept) - window.next) =
      ofNat (advance window.next (place span kept) - window.released)
    rw [← ofNat_add]
    congr 1
    omega

end

/-! ## Adding -/

section

variable (sound : Sound stream.finish maxBuffer.toNat window)
  (guarded : AddGuard stream.finish maxBuffer.toNat window start stop) (small : maxBuffer.toNat + 1 < 2 ^ 31)
include sound guarded small

omit small in
theorem head_near_limit {first : Span} {rest : List Span} (isHeld : window.spans = first :: rest) :
    first.start + maxBuffer.toNat < stop + 2 ^ 31 ∧ stop < first.start + maxBuffer.toNat + 2 ^ 31 ∧
      window.rcvNxt stream.finish ≤ first.start + max (2 ^ 30) maxBuffer.toNat + 1 := by
  have isFirst : first ∈ window.spans.head? := by rw [isHeld]; rfl
  obtain ⟨high, low⟩ := guarded.near first isFirst
  refine ⟨high, low, ?_⟩
  have counted := @rcvNxt_le stream.finish window
  rcases lt_or_ge window.released window.next with unread | read
  · have starts := sound.first_start unread isFirst
    obtain ⟨span, inSpans, inside⟩ := sound.filled (window.next - 1) (by omega) (by omega)
    have := sound.room span inSpans
    have := inside.2
    omega
  · have mem : first ∈ window.spans := by rw [isHeld]; exact List.mem_cons_self
    have := sound.above first mem
    omega

omit small in
theorem fitWindow_view : (window.view stream maxBuffer).fitWindow (stream.seq start) (stream.seq stop) =
      (stream.seq (window.head stream.finish maxBuffer.toNat start stop),
        stream.seq (window.limit maxBuffer.toNat stop)) := by
  have := guarded.valid
  have := guarded.behind
  have := guarded.ahead
  have isHead : (if stream.seq start < stream.seq (window.rcvNxt stream.finish) then
      stream.seq (window.rcvNxt stream.finish) else stream.seq start) =
      stream.seq (max start (window.rcvNxt stream.finish)) :=
    ByteStream.seq_max (by omega) (by omega)
  rw [fitWindow, head, limit]
  simp only [view]
  cases isHeld : window.spans with
  | nil => exact congrArg (fun head => (head, stream.seq stop)) isHead
  | cons first rest =>
    obtain ⟨high, low, counted⟩ := head_near_limit sound guarded isHeld
    have maxSeq : stream.seq first.start + maxBuffer = stream.seq (first.start + maxBuffer.toNat) := by
      rw [← ByteStream.seq_add, UInt32.ofNat_toNat]
    have starts : (stream.entry first).1 = stream.seq first.start := rfl
    have isTail : (if stream.seq first.start + maxBuffer < stream.seq stop then
        stream.seq first.start + maxBuffer else stream.seq stop) =
        stream.seq (min stop (first.start + maxBuffer.toNat)) := by
      rw [maxSeq, ByteStream.seq_min high low, min_comm]
    have cut : (if stream.seq (min stop (first.start + maxBuffer.toNat)) <
        stream.seq (max start (window.rcvNxt stream.finish)) then
        stream.seq (min stop (first.start + maxBuffer.toNat))
        else stream.seq (max start (window.rcvNxt stream.finish))) =
        stream.seq (min (max start (window.rcvNxt stream.finish)) (min stop (first.start + maxBuffer.toNat))) := by
      rw [ByteStream.seq_min (by omega) (by omega), min_comm]
    rw [if_neg (List.cons_ne_nil _ _)]
    refine Prod.ext (Eq.trans ?_ cut) isTail
    rw [← isHead, ← isTail]
    rfl

/-- A limit at or after what has been released is near it, and so is the head. -/
theorem ends_near (isHeld : window.spans ≠ []) (inside : window.released ≤ window.limit maxBuffer.toNat stop) :
    Near window.released (window.head stream.finish maxBuffer.toNat start stop) ∧
      Near window.released (window.limit maxBuffer.toNat stop) := by
  have := guarded.ahead
  have := sound.released_le
  have := @next_le_rcvNxt stream.finish window
  have := @rcvNxt_le stream.finish window
  obtain ⟨first, rest, same⟩ := List.exists_cons_of_ne_nil isHeld
  have limited : window.limit maxBuffer.toNat stop = min stop (first.start + maxBuffer.toNat) := by
    rw [limit, same]
  have nearLimit : window.limit maxBuffer.toNat stop < window.released + 2 ^ 31 := by
    rcases lt_or_ge window.released window.next with unread | read
    · have := sound.first_start unread (show first ∈ window.spans.head? by rw [same]; rfl)
      omega
    · omega
  rw [head, if_neg isHeld]
  exact ⟨⟨by omega, by omega⟩, ⟨inside, nearLimit⟩⟩

omit guarded small in
theorem head_of_before (isHeld : window.spans ≠ []) (before : window.limit maxBuffer.toNat stop < window.released) :
    window.head stream.finish maxBuffer.toNat start stop = window.limit maxBuffer.toNat stop ∧
      ∀ span ∈ window.spans, window.limit maxBuffer.toNat stop < span.start := by
  have := sound.released_le
  have := @next_le_rcvNxt stream.finish window
  rw [head, if_neg isHeld]
  exact ⟨by omega, fun span mem => lt_of_lt_of_le before (sound.above span mem)⟩

theorem removeOverlap_view : removeOverlap (stream.seq (window.head stream.finish maxBuffer.toNat start stop))
      (stream.seq (window.limit maxBuffer.toNat stop)) (ofNat (total window.spans))
      (window.spans.map stream.entry) =
        overlapOf stream 0 (window.trimmed stream.finish maxBuffer.toNat start stop) := by
  rw [trimmed, ← zero_add (total _)]
  by_cases isHeld : window.spans = []
  case pos =>
    rw [isHeld]
    rfl
  rcases lt_or_ge (window.limit maxBuffer.toNat stop) window.released with before | inside
  · -- The loop stops at the first packet.
    have after : ∀ span ∈ window.spans, window.limit maxBuffer.toNat stop < span.start :=
      fun span mem => lt_of_lt_of_le before (sound.above span mem)
    obtain ⟨first, rest, same⟩ := List.exists_cons_of_ne_nil isHeld
    have mem : first ∈ window.spans := by rw [same]; exact List.mem_cons_self
    have beyond := after first mem
    have := guarded.valid
    have := guarded.behind
    have := sound.reach first mem
    have := first.nonempty
    have := @next_le_rcvNxt stream.finish window
    have limited : window.limit maxBuffer.toNat stop = min stop (first.start + maxBuffer.toNat) := by
      rw [limit, same]
    have notReached : ¬ (stream.entry first).1 ≤ stream.seq (window.limit maxBuffer.toNat stop) :=
      mt (SequenceNumber32.offset_le_iff (by omega) (by omega)).mp (by omega)
    rw [trim_of_after after, same, List.map_cons, removeOverlap, if_neg notReached]
    rfl
  · obtain ⟨nearHead, nearTail⟩ := ends_near sound guarded small isHeld inside
    exact removeOverlap_entries 0 (sound.near small) nearHead nearTail

theorem trimmed_near {trimmed : Trimmed} (same : window.trimmed stream.finish maxBuffer.toNat start stop = trimmed) :
    trimmed.tail < trimmed.head + 2 ^ 31 ∧ trimmed.head < trimmed.tail + 2 ^ 31 := by
  subst same
  have := guarded.valid
  have := guarded.behind
  have := guarded.ahead
  rw [trimmed]
  by_cases isHeld : window.spans = []
  case pos =>
    rw [head, limit, isHeld, if_pos rfl, trim]
    simp only
    omega
  rcases lt_or_ge (window.limit maxBuffer.toNat stop) window.released with before | inside
  · obtain ⟨isHead, after⟩ := head_of_before sound isHeld before
    rw [trim_of_after after, isHead]
    simp only
    omega
  · obtain ⟨nearHead, nearTail⟩ := ends_near sound guarded small isHeld inside
    obtain ⟨⟨_, _⟩, ⟨_, _⟩⟩ := trim_ends (sound.near small) nearHead nearTail
    omega

theorem add_view :
    (window.view stream maxBuffer).add (stream.slice start stop) (stream.seq start) =
      some ((window.add stream.finish maxBuffer.toNat start stop).1.view stream maxBuffer,
        (window.add stream.finish maxBuffer.toNat start stop).2) := by
  have valid := guarded.valid
  have := guarded.behind
  have := guarded.ahead
  have isStop : stream.seq start + getSize (stream.slice start stop) = stream.seq stop := by
    rw [ByteStream.getSize_slice, ByteStream.seq_add, Nat.add_sub_cancel' valid]
  have overlap := removeOverlap_view sound guarded small
  obtain ⟨low, high⟩ := trimmed_near sound guarded small rfl
  have fitted := @trimmed_spec stream.finish maxBuffer.toNat window start stop sound.ordered
  simp only [TcpRxBuffer.add, isStop, fitWindow_view sound guarded]
  simp only [view, overlap]
  rw [add]
  generalize window.trimmed stream.finish maxBuffer.toNat start stop = trimmed at *
  have stays : (TcpRxBuffer.overlapOf stream 0 trimmed).headSeq ≥ (TcpRxBuffer.overlapOf stream 0 trimmed).tailSeq ↔
      trimmed.tail ≤ trimmed.head :=
    SequenceNumber32.offset_le_iff low high
  by_cases room : trimmed.head < trimmed.tail
  · rw [if_neg (mt stays.mp (Nat.not_le_of_lt room)), dif_pos room]
    rcases fitted with fits | redundant
    · obtain ⟨head, tail, kept⟩ := trimmed
      have further : start ≤ head := Nat.le_trans (Nat.le_max_left _ _) fits.head_le
      have ends : tail ≤ stop := Nat.le_trans fits.le_tail limit_le
      have skipped : ((stream.seq head).sub (stream.seq start)).toUInt32 = ofNat (head - start) :=
        SequenceNumber32.offset_sub further
      have length : ((stream.seq tail).sub (stream.seq head)).toUInt32 = ofNat (tail - head) :=
        SequenceNumber32.offset_sub (Nat.le_of_lt room)
      have stored := @store_view _ stream maxBuffer window start stop ⟨head, tail, room⟩ kept sound guarded
        fits small
      simp only [TcpRxBuffer.overlapOf, skipped, length, Nat.zero_add, ByteStream.getSize_slice,
        ByteStream.createFragment_slice further (Nat.le_of_lt room) ends (by omega), guard, if_true,
        Option.pure_def, Option.bind_eq_bind, Option.bind_some]
      simp only [view] at stored
      rw [stored]
      rfl
    · exact absurd redundant.empty (Nat.not_le_of_lt room)
  · rw [if_pos (stays.mpr (Nat.not_lt.mp room)), dif_neg room]
    simp only [TcpRxBuffer.overlapOf, Nat.zero_add]
    rfl

end

/-! ## Extracting, and the FIN -/

theorem extract_view (sound : Sound stream.finish maxBuffer.toNat window) (small : maxBuffer.toNat + 1 < 2 ^ 31)
    (maxSize : UInt32) :
    (window.view stream maxBuffer).extract maxSize = some ((window.extract maxSize.toNat).view stream maxBuffer,
        if (window.extract maxSize.toNat).released = window.released then none
        else some (stream.slice window.released (window.extract maxSize.toNat).released)) := by
  have further := sound.released_le
  have ahead := @next_le_rcvNxt stream.finish window
  obtain ⟨_, _⟩ := sound.nearNext small
  have available : (UInt32.ofNat (window.next - window.released)).toNat = window.next - window.released :=
    ByteStream.toNat_ofNat (by omega)
  obtain ⟨count, isCount⟩ : ∃ count, min maxSize.toNat (window.next - window.released) = count := ⟨_, rfl⟩
  have extractSize : (if (window.view stream maxBuffer).availBytes < maxSize then
      (window.view stream maxBuffer).availBytes else maxSize) = UInt32.ofNat count := by
    have less : (window.view stream maxBuffer).availBytes < maxSize ↔
        window.next - window.released < maxSize.toNat := by
      rw [UInt32.lt_iff_toNat_lt, view, available]
    rw [← isCount]
    by_cases wanted : window.next - window.released < maxSize.toNat
    · rw [if_pos (less.mpr wanted), min_eq_right (le_of_lt wanted), view]
    · rw [if_neg (mt less.mp wanted), min_eq_left (not_lt.mp wanted), UInt32.ofNat_toNat]
  have zero : UInt32.ofNat count = 0 ↔ count = 0 := by
    rw [← UInt32.toNat_inj, ByteStream.toNat_ofNat (by omega)]
    rfl
  have filled : ∀ position, window.released ≤ position -> position < window.released + count ->
      Covered window.spans position := fun position above below =>
    sound.filled position above (by omega)
  have taken := @TcpRxBuffer.extractFrom_entries _ stream window.released window.spans
    (window.view stream maxBuffer) window.released (window.rcvNxt stream.finish) count [] sound.ordered
    (sound.near small) sound.above filled (sound.nearRcvNxt small) rfl (by omega) (by omega)
  have held := total_cut sound.ordered (le_add_right _ count) sound.above filled
  rw [TcpRxBuffer.extract]
  simp only [extractSize, zero]
  have same : window.extract maxSize.toNat = { window with
        released := window.released + count
        spans := cut (window.released + count) window.spans } := by
    rw [extract, isCount]
  rw [same]
  by_cases nothing : count = 0
  · have unmoved : cut (window.released + count) window.spans = window.spans :=
      TcpRxBuffer.cut_of_after (by rw [nothing]; exact sound.above)
    rw [if_pos nothing, unmoved, nothing, add_zero, if_pos rfl]
  · have some : stream.slice window.released (window.released + count) ≠ [] := by
      rw [← List.length_pos_iff, ByteStream.length_slice]
      omega
    have left : TcpRxBuffer.taken stream (window.view stream maxBuffer) count
        (cut (window.released + count) window.spans) =
        ({ window with
          released := window.released + count
          spans := cut (window.released + count) window.spans } : Window).view stream maxBuffer := by
      refine TcpRxBuffer.ext rfl rfl rfl ?_ rfl ?_ rfl rfl
      · refine (TcpRxBuffer.ofNat_sub (by omega)).trans (congrArg UInt32.ofNat ?_)
        simp only
        omega
      · refine (TcpRxBuffer.ofNat_sub (by omega)).trans (congrArg UInt32.ofNat ?_)
        simp only
        omega
    rw [if_neg nothing, if_neg (by simp only; omega)]
    change Option.map _ (TcpRxBuffer.extractFrom (window.view stream maxBuffer) (UInt32.ofNat count) []
      (window.spans.map stream.entry)) = _
    rw [taken, Option.map_some, List.nil_append, if_neg some, left]

theorem setFin_view (closes : window.next ≤ stream.finish) (ringed : stream.finish < window.next + 2 ^ 32) :
    (window.view stream maxBuffer).setFinSequence (stream.seq stream.finish) =
      window.setFin.view stream maxBuffer := by
  have counted : stream.seq (window.rcvNxt stream.finish) = stream.seq stream.finish ↔
      window.rcvNxt stream.finish = stream.finish := by
    have := @next_le_rcvNxt stream.finish window
    have := @rcvNxt_le stream.finish window
    exact SequenceNumber32.offset_inj (by omega) (by omega)
  have isNext : (if stream.seq (window.rcvNxt stream.finish) = stream.seq stream.finish then
      stream.seq (window.rcvNxt stream.finish) + (1 : UInt32) else stream.seq (window.rcvNxt stream.finish)) =
      stream.seq (window.setFin.rcvNxt stream.finish) := by
    have later : window.setFin.rcvNxt stream.finish =
        if window.next = stream.finish then window.next + 1 else window.next := by
      simp only [rcvNxt, setFin, true_and]
    by_cases reached : window.next = stream.finish
    · rw [later, if_pos reached]
      cases got : window.gotFin with
      | true =>
        have already : window.rcvNxt stream.finish = window.next + 1 := by
          rw [rcvNxt, if_pos ⟨got, reached⟩]
        rw [if_neg (mt counted.mp (by omega)), already]
      | false =>
        have notYet : window.rcvNxt stream.finish = window.next := by
          rw [rcvNxt, if_neg fun both => Bool.false_ne_true (got.symm.trans both.1)]
        rw [if_pos (counted.mpr (notYet.trans reached)), notYet]
        exact ByteStream.seq_add _ 1
    · have notCounted : window.rcvNxt stream.finish = window.next := by
        rw [rcvNxt, if_neg fun both => reached both.2]
      rw [if_neg (mt counted.mp (by rwa [notCounted])), later, if_neg reached, notCounted]
  exact TcpRxBuffer.ext isNext rfl rfl rfl rfl rfl rfl rfl

end Window

end Ns3.Internet
