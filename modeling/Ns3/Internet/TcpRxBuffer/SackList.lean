import Ns3.Internet.TcpRxBuffer.Reassembly

/-!
# The SACK list

`sack_list_sound` says in which runs the blocks reported are held and apart, the most recent first:
those in which no packet ahead of RCV.NXT swallows a stored one that a block reports. Blocks are
joined where they touch, but a block inside another stays.
-/

namespace Ns3.Internet

open Ns3.Semantics Ns3.Semantics.Spans List

namespace Window

/-- A range swallows a span that a block reports: the span lies strictly inside it, behind a
position that is not held. -/
def Swallows (maxBuffer : Nat) (window : Window) (start stop : Nat) : Prop :=
  ∃ span ∈ window.spans, (∃ block ∈ window.sack, ¬ span.Disjoint block) ∧ span.stop < window.limit maxBuffer stop ∧
      ∃ byte < span.start, start ≤ byte ∧ ¬ Covered window.spans byte

variable {finish maxBuffer start stop : Nat} {window : Window} {span : Span} {kept : List Span}

section

variable (sound : Sound finish maxBuffer window) (guarded : AddGuard finish maxBuffer window start stop)
  (isTrimmed : window.trimmed finish maxBuffer start stop = ⟨span.start, span.stop, kept⟩)
  (fits : Fits window.spans (max start (window.rcvNxt finish)) (window.limit maxBuffer stop)
    ⟨span.start, span.stop, kept⟩)
  (ahead : window.next < span.start)
include sound guarded fits ahead

theorem rcvNxt_lt_start : window.rcvNxt finish < start := by
  have isNext := rcvNxt_of_fits guarded fits
  by_contra behind
  have inside := (fits.covers window.next).mpr (.inr (by
    have := fits.nonempty
    have := fits.le_tail
    rw [isNext]
    simp only at *
    omega))
  rcases inside with covered | within
  · exact sound.next_not_covered (covered.mono fits.sublist.subset)
  · exact absurd within.1 (Nat.not_le_of_lt ahead)

/-- RCV.NXT does not move over a span stored ahead of it. -/
theorem next_store : (window.store span kept).next = window.next := by
  obtain ⟨further, passed, -⟩ := advance_store sound fits
  by_contra moved
  have covered := passed window.next (Nat.le_refl _) (by omega)
  rw [covered_store fits] at covered
  have := rcvNxt_lt_start sound guarded fits ahead
  have := @next_le_rcvNxt finish window
  rcases covered with old | within
  · exact sound.next_not_covered old
  · omega

/-- Every block stays reported when a span is stored ahead of RCV.NXT. -/
theorem sack_store_eq : (window.store span kept).sack = (merge span [] window.sack).take 4 := by
  have isNext := next_store sound guarded fits ahead
  have unfiltered : (window.store span kept).sack =
      (window.reported span).filter fun block => (window.store span kept).next < block.stop := rfl
  rw [unfiltered, isNext, reported, if_pos ahead]
  refine filter_eq_self.mpr fun block member => decide_eq_true ?_
  have inReported : block ∈ window.reported span := by
    rw [reported, if_pos ahead]
    exact member
  have := (reported_spec sound fits inReported block.start_mem).1
  have := block.nonempty
  omega

omit guarded ahead in
include isTrimmed in
/-- Without a swallowed span, what is stored overlaps no block. -/
theorem disjoint_of_not_swallows (apart : ¬ window.Swallows maxBuffer start stop) :
    ∀ block ∈ window.sack, span.Disjoint block := by
  intro block reported
  by_contra overlap
  rw [Span.Disjoint] at overlap
  have := span.nonempty
  have := block.nonempty
  obtain ⟨shared, inSpan, inBlock⟩ : ∃ shared, shared ∈ span ∧ shared ∈ block :=
    ⟨max span.start block.start, ⟨by omega, by omega⟩, ⟨by omega, by omega⟩⟩
  obtain ⟨swallowed, member, inside⟩ := (sound.sack block reported).2 shared inBlock
  have dropped : swallowed ∉ kept := by
    intro isKept
    have := inSpan.1
    have := inSpan.2
    have := inside.1
    have := inside.2
    rcases fits.apart swallowed isKept with before | after
    · simp only at before
      omega
    · simp only at after
      omega
  have isHead : window.head finish maxBuffer start stop = max start (window.rcvNxt finish) := by
    rw [head]
    split
    · rfl
    · have := fits.head_le
      have := fits.le_tail
      have := fits.nonempty
      exact Nat.min_eq_left (by omega)
  have cut := isTrimmed
  rw [trimmed, isHead] at cut
  obtain ⟨ends, hole, above, below, open_⟩ := trim_dropped sound.ordered member (by rwa [cut])
  refine apart ⟨swallowed, member, ⟨block, reported, ?_⟩, ends, hole, below, by omega, open_⟩
  rw [Span.Disjoint]
  have := inBlock.1
  have := inBlock.2
  have := inside.1
  have := inside.2
  omega

end

/-- Blocks stay apart when a range is added that, if it is ahead of RCV.NXT, swallows none. -/
theorem apart_add (sound : Sound finish maxBuffer window)
    (guarded : AddGuard finish maxBuffer window start stop)
    (spares : window.rcvNxt finish < start -> ¬ window.Swallows maxBuffer start stop)
    (apart : window.sack.Pairwise Span.Apart) :
    (window.add finish maxBuffer start stop).1.sack.Pairwise Span.Apart := by
  rcases add_cases sound.ordered start stop with ⟨same, -⟩ | ⟨span, kept, same, isTrimmed, fits⟩
  · rw [same]
    exact apart
  · rw [same]
    by_cases ahead : window.next < span.start
    · rw [sack_store_eq sound guarded fits ahead]
      refine (merge_apart span [] window.sack apart (fun _ none => nomatch none) ?_).sublist
        (take_sublist _ _)
      exact disjoint_of_not_swallows sound isTrimmed fits
        (spares (rcvNxt_lt_start sound guarded fits ahead))
    · have unreported : window.reported span = window.sack := if_neg ahead
      refine apart.sublist ?_
      rw [store, unreported]
      exact filter_sublist

/-- A span stored ahead of RCV.NXT is covered by the first block. -/
theorem first_covers (sound : Sound finish maxBuffer window) (guarded : AddGuard finish maxBuffer window start stop)
    (fits : Fits window.spans (max start (window.rcvNxt finish)) (window.limit maxBuffer stop)
      ⟨span.start, span.stop, kept⟩) (ahead : window.next < span.start) :
    ∃ first ∈ (window.store span kept).sack.head?, first.start ≤ span.start ∧ span.stop ≤ first.stop := by
  obtain ⟨first, others, same, starts, stops, -⟩ := merge_spec span [] window.sack
  rw [sack_store_eq sound guarded fits ahead, same]
  exact ⟨first, rfl, starts, stops⟩

end Window

namespace Receiver

variable {Byte : Type}

/-- The list returned by `GetSackList` is sound. -/
structure SackSound (stream : ByteStream Byte) (receiver : Receiver Byte) : Prop where
  few : receiver.buffer.sackList.length ≤ 4
  nonempty : ∀ block ∈ receiver.buffer.sackList,
    receiver.position stream block.first < receiver.position stream block.second
  ahead : ∀ block ∈ receiver.buffer.sackList, receiver.rcvNxt stream < receiver.position stream block.first
  held : ∀ block ∈ receiver.buffer.sackList, ∀ byte, receiver.position stream block.first ≤ byte ->
    byte < receiver.position stream block.second -> receiver.Holds stream byte
  apart : receiver.buffer.sackList.Pairwise fun block other =>
    receiver.position stream block.second < receiver.position stream other.first ∨
      receiver.position stream other.second < receiver.position stream block.first

variable (stream : ByteStream Byte)

/-- A segment newly stored out of order is within the first block. -/
def FirstCovers (before after : Receiver Byte) : Prop :=
  ∀ entry ∈ after.buffer.data, entry ∉ before.buffer.data -> before.rcvNxt stream < after.position stream entry.1 ->
      ∃ first ∈ after.buffer.sackList.head?, after.position stream first.first ≤ after.position stream entry.1 ∧
          after.position stream entry.1 + entry.2.length ≤ after.position stream first.second

/-- A slice swallows a stored packet that shares bytes with a reported block: the packet ends
before the slice, within the limit of `Add`, and starts behind a byte of it that is not held. -/
def Swallows (receiver : Receiver Byte) (start stop : Nat) : Prop :=
  ∃ entry ∈ receiver.buffer.data, (∃ block ∈ receiver.buffer.sackList,
      receiver.position stream block.first < receiver.position stream entry.1 + entry.2.length ∧
        receiver.position stream entry.1 < receiver.position stream block.second) ∧
      (receiver.InLimit stream (receiver.position stream entry.1 + entry.2.length) ∧
        receiver.position stream entry.1 + entry.2.length < stop) ∧
        ∃ byte < receiver.position stream entry.1, start ≤ byte ∧ ¬ receiver.Holds stream byte

instance (stream : ByteStream Byte) (receiver : Receiver Byte) (start stop : Nat) :
    Decidable (receiver.Swallows stream start stop) :=
  inferInstanceAs (Decidable (∃ entry ∈ receiver.buffer.data, _))

/-- No slice ahead of RCV.NXT swallows a packet of a reported block. -/
def Spares (receiver : Receiver Byte) : Action -> Prop
  | .add start stop => receiver.rcvNxt stream < start -> ¬ receiver.Swallows stream start stop
  | .setFin => True
  | .extract _ => True

instance (stream : ByteStream Byte) (receiver : Receiver Byte) :
    (action : Action) -> Decidable (receiver.Spares stream action)
  | .add _ _ => inferInstanceAs (Decidable (_ -> _))
  | .setFin => isTrue trivial
  | .extract _ => isTrue trivial

variable {stream : ByteStream Byte} {maxBuffer : UInt32} {receiver : Receiver Byte} {window : Window}
  {trace : List (Receiver Byte × Action)} {action : Action}

namespace Tracks

variable (tracks : Tracks stream maxBuffer receiver window) (small : maxBuffer.toNat + 1 < 2 ^ 31)
include tracks small

theorem position_block {block : Span} (member : block ∈ window.sack) :
    receiver.position stream (stream.block block).first = block.start ∧
      receiver.position stream (stream.block block).second = block.stop := by
  obtain ⟨⟨_, _⟩, ⟨_, _⟩⟩ := tracks.sound.nearSack small block member
  exact ⟨tracks.position_seq (by omega) (by omega), tracks.position_seq (by omega) (by omega)⟩

theorem swallows_iff {start stop : Nat} :
    receiver.Swallows stream start stop ↔ window.Swallows maxBuffer.toNat start stop := by
  have blocks {span : Span} : (∃ block ∈ receiver.buffer.sackList, receiver.position stream block.first < span.stop ∧
        span.start < receiver.position stream block.second) ↔
      ∃ block ∈ window.sack, ¬ span.Disjoint block := by
    rw [tracks.sackList_eq]
    simp only [mem_map, exists_exists_and_eq_and, Span.Disjoint, not_or, Nat.not_le]
    refine exists_congr fun block => and_congr_right fun member => ?_
    rw [(tracks.position_block small member).1, (tracks.position_block small member).2]
  rw [Swallows, Window.Swallows, tracks.data_eq]
  simp only [mem_map, exists_exists_and_eq_and]
  refine exists_congr fun span => and_congr_right fun member => ?_
  rw [tracks.position_entry small member, ByteStream.length_entry, Span.start_add_length, blocks,
    tracks.inLimit_iff small]
  simp only [tracks.holds_iff small]

theorem sackSound (apart : window.sack.Pairwise Span.Apart) : SackSound stream receiver where
  few := by
    rw [tracks.sackList_eq, length_map]
    exact tracks.sound.few
  nonempty := by
    rw [tracks.sackList_eq, forall_mem_map]
    intro block member
    obtain ⟨first, second⟩ := tracks.position_block small member
    rw [first, second]
    exact block.nonempty
  ahead := by
    rw [tracks.sackList_eq, forall_mem_map]
    intro block member
    rw [(tracks.position_block small member).1, tracks.rcvNxt_eq small]
    exact tracks.sound.rcvNxt_lt_block member
  held := by
    rw [tracks.sackList_eq, forall_mem_map]
    intro block member byte above below
    obtain ⟨first, second⟩ := tracks.position_block small member
    rw [first] at above
    rw [second] at below
    exact (tracks.holds_iff small).mpr ((tracks.sound.sack block member).2 byte ⟨above, below⟩)
  apart := by
    rw [tracks.sackList_eq, pairwise_map]
    refine apart.imp_of_mem fun {block other} first second separate => ?_
    rw [(tracks.position_block small first).1, (tracks.position_block small first).2,
      (tracks.position_block small second).1, (tracks.position_block small second).2]
    exact separate

/-- What is newly stored is a span that `Add` has stored. -/
theorem firstCovers {next : Receiver Byte} {start stop : Nat}
    (guarded : window.AddGuard stream.finish maxBuffer.toNat start stop)
    (after : Tracks stream maxBuffer next (window.add stream.finish maxBuffer.toNat start stop).1) :
    FirstCovers stream receiver next := by
  intro entry stored new ahead
  rw [tracks.data_eq] at new
  rw [after.data_eq] at stored
  obtain ⟨span, member, rfl⟩ := mem_map.mp stored
  rw [after.position_entry small member, tracks.rcvNxt_eq small] at ahead
  rcases Window.add_cases tracks.sound.ordered start stop with ⟨same, -⟩ | ⟨added, kept, same, -, fits⟩
  · rw [same] at member
    exact absurd (mem_map_of_mem member) new
  · rw [same] at member after
    rcases Window.mem_store fits member with rfl | old
    · obtain ⟨first, isFirst, starts, stops⟩ := Window.first_covers tracks.sound guarded fits
        (Nat.lt_of_le_of_lt Window.next_le_rcvNxt ahead)
      have inSack := mem_of_mem_head? isFirst
      refine ⟨stream.block first, ?_, ?_⟩
      · rw [after.sackList_eq, head?_map]
        exact Option.mem_map_of_mem _ isFirst
      · rw [after.position_entry small member, ByteStream.length_entry, Span.start_add_length,
          (after.position_block small inSack).1, (after.position_block small inSack).2]
        exact ⟨starts, stops⟩
    · exact absurd (mem_map_of_mem old) new

end Tracks

theorem apart_perform (tracks : Tracks stream maxBuffer receiver window)
    (small : maxBuffer.toNat + 1 < 2 ^ 31) (guarded : window.Guard stream.finish maxBuffer.toNat action)
    (spares : receiver.Spares stream action) (apart : window.sack.Pairwise Span.Apart) :
    (window.perform stream.finish maxBuffer.toNat action).sack.Pairwise Span.Apart := by
  cases action with
  | add start stop =>
    have spares : receiver.rcvNxt stream < start -> ¬ receiver.Swallows stream start stop := spares
    rw [tracks.rcvNxt_eq small, tracks.swallows_iff small] at spares
    exact Window.apart_add tracks.sound guarded spares apart
  | setFin => exact apart
  | extract maxSize => exact apart

/-- The list is sound, and its first block covers the segment stored last, in every run in which
no slice swallows a packet of a reported block. -/
theorem sack_list_sound (stream : ByteStream Byte) {maxBuffer : UInt32}
    (small : maxBuffer.toNat + 1 < 2 ^ 31) {trace : List (Receiver Byte × Action)} {receiver : Receiver Byte}
    (run : (system stream maxBuffer).Run trace receiver)
    (admissible : ∀ entry ∈ trace, entry.1.Admissible stream entry.2)
    (spares : ∀ entry ∈ trace, entry.1.Spares stream entry.2) :
    SackSound stream receiver ∧ ∀ earlier before start stop,
      trace = earlier ++ [(before, .add start stop)] -> FirstCovers stream before receiver := by
  suffices ∃ window, Holding stream maxBuffer trace receiver window ∧
      window.sack.Pairwise Span.Apart ∧ ∀ earlier before start stop,
        trace = earlier ++ [(before, .add start stop)] -> FirstCovers stream before receiver by
    obtain ⟨window, holding, apart, covers⟩ := this
    exact ⟨holding.tracks.sackSound small apart, covers⟩
  induction run with
  | initial valid =>
    obtain rfl := valid
    refine ⟨.empty, .initial stream maxBuffer, List.Pairwise.nil, fun earlier before start stop split => ?_⟩
    exact absurd split.symm (append_ne_nil_of_right_ne_nil _ (cons_ne_nil _ _))
  | @step trace receiver action next prior transition ih =>
    obtain ⟨window, holding, apart, -⟩ := ih (fun entry member => admissible entry (mem_append_left _ member))
      fun entry member => spares entry (mem_append_left _ member)
    have guarded := holding.guard small (admissible (receiver, action) (by simp))
    obtain ⟨reached, performed, continued⟩ := holding.step small (admissible (receiver, action) (by simp))
    obtain rfl : reached = next := Option.some.inj (performed.symm.trans transition)
    refine ⟨_, continued, apart_perform holding.tracks small guarded (spares (receiver, action) (by simp)) apart,
      fun earlier before start stop split => ?_⟩
    obtain ⟨-, last⟩ := append_inj' split rfl
    obtain ⟨rfl, rfl⟩ := Prod.mk.inj (singleton_inj.mp last)
    exact holding.tracks.firstCovers small guarded continued.tracks

/-- Two blocks ahead of a received prefix, the last of them grown on both sides. -/
def blocks : List Action :=
  [.add 9 10, .add 6 7, .add 7 8, .add 0 2, .add 4 6]

theorem blocks_run : ((system wrapping 32768).exec ⟨.construct 0xfffffffc 32768, []⟩ blocks).isSome := by
  decide +kernel

theorem blocks_admissible : ∀ entry ∈ (system wrapping 32768).steps ⟨.construct 0xfffffffc 32768, []⟩ blocks,
    entry.1.Admissible wrapping entry.2 := by
  decide +kernel

theorem blocks_spared : ∀ entry ∈ (system wrapping 32768).steps ⟨.construct 0xfffffffc 32768, []⟩ blocks,
    entry.1.Spares wrapping entry.2 := by
  decide +kernel

theorem blocks_sack_list_sound :
    SackSound wrapping (((system wrapping 32768).exec ⟨.construct 0xfffffffc 32768, []⟩ blocks).get blocks_run) ∧
      ∀ earlier before start stop, (system wrapping 32768).steps ⟨.construct 0xfffffffc 32768, []⟩ blocks =
        earlier ++ [(before, .add start stop)] -> FirstCovers wrapping before
          (((system wrapping 32768).exec ⟨.construct 0xfffffffc 32768, []⟩ blocks).get blocks_run) :=
  sack_list_sound wrapping (by decide)
    (System.run_of_exec rfl (Option.some_get blocks_run).symm) blocks_admissible blocks_spared

example : (((system wrapping 32768).exec ⟨.construct 0xfffffffc 32768, []⟩ blocks).get
    blocks_run).buffer.sackList = [⟨⟨0⟩, ⟨4⟩⟩, ⟨⟨5⟩, ⟨6⟩⟩] := by
  decide +kernel

/-- A slice that swallows a reported packet is reported before the block inside it. -/
theorem swallowed_block_reported : ¬ ∀ trace receiver, (system (counting 100) 32768).Run trace receiver ->
    (∀ entry ∈ trace, entry.1.Admissible (counting 100) entry.2) -> SackSound (counting 100) receiver := by
  intro alwaysSound
  have sound := alwaysSound _ _ (@System.run_of_exec _ _ (system (counting 100) 32768) _ _ rfl
    [.add 10 20, .add 5 25] (Option.some_get (by decide +kernel)).symm) (by decide +kernel)
  exact absurd sound.apart (by decide +kernel)

end Receiver

end Ns3.Internet
