import Ns3.Internet.TcpRxBuffer.Receiver

/-!
# Reassembly

`reassembles` says that a receiver puts a stream together again, whatever the order of the
slices it is given and however they overlap, as long as the sequence numbers it compares are
less than half their ring apart.
-/

namespace Ns3.Internet.Receiver

open Ns3.Semantics Ns3.Semantics.Spans List Option Nat ByteStream

variable {Byte : Type}

variable (stream : ByteStream Byte)

variable (receiver : Receiver Byte)

/-- The actions a receiver is given: slices of the stream within 2^30 of RCV.NXT, the end of the
stream, and extractions. -/
def Within : Action -> Prop
  | .add start stop => start ≤ stop ∧ stop ≤ stream.finish ∧
      receiver.rcvNxt stream ≤ start + 2 ^ 30 ∧ stop ≤ receiver.rcvNxt stream + 2 ^ 30
  | .setFin => True
  | .extract _ => True

instance (stream : ByteStream Byte) (receiver : Receiver Byte) :
    (action : Action) -> Decidable (receiver.Within stream action)
  | .add _ _ => inferInstanceAs (Decidable (_ ∧ _))
  | .setFin => isTrue trivial
  | .extract _ => isTrue trivial

/-- Besides, the end of a slice is less than half the ring of sequence numbers from the limit of
`Add`, and the end of the stream less than the ring ahead. -/
def Admissible : Action -> Prop
  | .add start stop => stop ≤ stream.finish ∧ receiver.Near stream start stop
  | .setFin => stream.finish < receiver.rcvNxt stream + 2 ^ 32
  | .extract _ => True

instance (stream : ByteStream Byte) (receiver : Receiver Byte) :
    (action : Action) -> Decidable (receiver.Admissible stream action)
  | .add _ _ => inferInstanceAs (Decidable (_ ∧ _))
  | .setFin => inferInstanceAs (Decidable (_ < _))
  | .extract _ => isTrue trivial

/-- A byte of an added slice lies within the limit of `Add`. -/
def Accepts (byte : Nat) : Action -> Prop
  | .add start stop => start ≤ byte ∧ byte < stop ∧ receiver.InLimit stream byte
  | .setFin => False
  | .extract _ => False

/-- A receiver after the steps of a trace that met a condition has put the stream together. -/
structure Reassembles (stream : ByteStream Byte) (condition : Receiver Byte -> Action -> Prop)
    (trace : List (Receiver Byte × Action)) (receiver : Receiver Byte) : Prop where
  /-- What has been extracted is a prefix of the stream. -/
  prefixed : receiver.extracted = stream.slice 0 receiver.extracted.length ∧ receiver.extracted.length ≤ stream.finish
  /-- What has been extracted and what is available end at RCV.NXT, not counting the FIN. -/
  accounted : receiver.buffer.nextRxSeq = stream.seq (if receiver.buffer.gotFin = true ∧
        receiver.extracted.length + receiver.buffer.availBytes.toNat = stream.finish
      then receiver.extracted.length + receiver.buffer.availBytes.toNat + 1
      else receiver.extracted.length + receiver.buffer.availBytes.toNat)
  sized : receiver.buffer.size.toNat = (receiver.buffer.data.map fun entry => entry.2.length).sum
  apart : receiver.buffer.data.Pairwise fun earlier later =>
    receiver.position stream earlier.1 + earlier.2.length ≤ receiver.position stream later.1
  contents : ∀ entry ∈ receiver.buffer.data, entry.2 = stream.slice (receiver.position stream entry.1)
    (receiver.position stream entry.1 + entry.2.length)
  /-- No byte that was stored or accepted in the window is lost. -/
  kept : ∀ entry ∈ trace, ∀ byte, entry.1.Holds stream byte ∨ entry.1.Accepts stream byte entry.2 ->
    byte < receiver.extracted.length ∨ receiver.Holds stream byte
  /-- No assertion fails. -/
  proceeds : ∀ action, condition receiver action -> (receiver.perform stream action).isSome = true

/-- What the steps rely on. -/
structure Holding (stream : ByteStream Byte) (maxBuffer : UInt32) (trace : List (Receiver Byte × Action))
    (receiver : Receiver Byte) (window : Window) : Prop where
  tracks : Tracks stream maxBuffer receiver window
  next_le : window.next ≤ stream.finish
  spans_le : ∀ span ∈ window.spans, span.stop ≤ stream.finish
  kept : ∀ entry ∈ trace, ∀ byte, entry.1.Holds stream byte ∨ entry.1.Accepts stream byte entry.2 ->
    byte < window.released ∨ Covered window.spans byte

variable {stream : ByteStream Byte} {maxBuffer : UInt32} {receiver : Receiver Byte} {window : Window}
  {trace : List (Receiver Byte × Action)} {action : Action}

theorem Holding.initial (stream : ByteStream Byte) (maxBuffer : UInt32) :
    Holding stream maxBuffer [] ⟨.construct stream.isn.value maxBuffer, []⟩ .empty where
  tracks := .initial stream maxBuffer
  next_le := zero_le _
  spans_le := fun _ member => nomatch member
  kept := fun _ member => nomatch member

theorem Holding.guard (holding : Holding stream maxBuffer trace receiver window)
    (small : maxBuffer.toNat + 1 < 2 ^ 31) (admissible : receiver.Admissible stream action) :
    window.Guard stream.finish maxBuffer.toNat action := by
  cases action with
  | add start stop =>
    refine holding.tracks.addGuard_of_near small admissible.2 fun _ byte _ below _ => ?_
    exact lt_of_lt_of_le below (le_trans Window.limit_le admissible.1)
  | setFin =>
    have ringed : stream.finish < receiver.rcvNxt stream + 2 ^ 32 := admissible
    rw [holding.tracks.rcvNxt_eq small] at ringed
    refine ⟨⟨holding.next_le, holding.spans_le⟩, ?_⟩
    have := holding.next_le
    rw [Window.rcvNxt] at ringed
    split at ringed <;> omega
  | extract maxSize => trivial

theorem held_mono {finish limit byte : Nat} (sound : window.Sound finish limit)
    (held : byte < window.released ∨ Covered window.spans byte) :
    byte < (window.perform finish limit action).released ∨
      Covered (window.perform finish limit action).spans byte := by
  cases action with
  | add start stop =>
    rw [Window.perform, Window.released_add, Window.covered_add sound.ordered]
    exact held.imp id .inl
  | setFin => exact held
  | extract maxSize =>
    obtain ⟨further, -⟩ := Window.released_extract sound maxSize.toNat
    rw [Window.perform, Window.covered_extract sound.ordered]
    rcases held with released | covered
    · exact .inl (lt_of_lt_of_le released further)
    · exact (lt_or_ge byte _).imp id fun above => ⟨covered, above⟩

theorem released_perform_le {finish limit : Nat} (sound : window.Sound finish limit) (action : Action) :
    (window.perform finish limit action).released ≤ window.next := by
  cases action with
  | add start stop =>
    rw [Window.perform, Window.released_add]
    exact sound.released_le
  | setFin => exact sound.released_le
  | extract maxSize => exact (Window.released_extract sound maxSize.toNat).2

section

variable (holding : Holding stream maxBuffer trace receiver window)
include holding

theorem Holding.accepted
    (small : maxBuffer.toNat + 1 < 2 ^ 31) (admissible : receiver.Admissible stream action) {byte : Nat}
    (accepts : receiver.Accepts stream byte action) :
    byte < (window.perform stream.finish maxBuffer.toNat action).released ∨
      Covered (window.perform stream.finish maxBuffer.toNat action).spans byte := by
  have sound := holding.tracks.sound
  cases action with
  | setFin => exact accepts.elim
  | extract maxSize => exact accepts.elim
  | add start stop =>
    obtain ⟨above, below, inLimit⟩ := accepts
    have withinLimit := (holding.tracks.inLimit_iff small).mp ⟨inLimit, below⟩
    rcases lt_or_ge byte (window.rcvNxt stream.finish) with received | ahead
    · -- A byte before RCV.NXT is no FIN, so it was received.
      refine held_mono sound ?_
      have : byte < window.next := by
        have := holding.next_le
        have := admissible.1
        rw [Window.rcvNxt] at received
        split at received <;> omega
      exact (lt_or_ge byte window.released).imp id fun unread => sound.filled byte unread this
    · right
      rw [Window.perform, Window.covered_add sound.ordered]
      exact .inr ⟨by omega, withinLimit⟩

theorem Holding.spans_le_perform (admissible : receiver.Admissible stream action) :
    ∀ span ∈ (window.perform stream.finish maxBuffer.toNat action).spans, span.stop ≤ stream.finish := by
  have sound := holding.tracks.sound
  have old : ∀ byte, Covered window.spans byte -> byte < stream.finish := by
    rintro byte ⟨span, member, inside⟩
    exact lt_of_lt_of_le inside.2 (holding.spans_le span member)
  intro span member
  have := span.nonempty
  have last : Covered (window.perform stream.finish maxBuffer.toNat action).spans (span.stop - 1) :=
    ⟨span, member, by omega, by omega⟩
  have : span.stop - 1 < stream.finish := by
    cases action with
    | add start stop =>
      rw [Window.perform, Window.covered_add sound.ordered] at last
      rcases last with covered | ⟨-, below⟩
      · exact old _ covered
      · exact lt_of_lt_of_le below (le_trans Window.limit_le admissible.1)
    | setFin => exact old _ last
    | extract maxSize =>
      rw [Window.perform, Window.covered_extract sound.ordered] at last
      exact old _ last.1
  omega

theorem Holding.step
    (small : maxBuffer.toNat + 1 < 2 ^ 31) (admissible : receiver.Admissible stream action) :
    ∃ next, receiver.perform stream action = some next ∧
      Holding stream maxBuffer (trace ++ [(receiver, action)]) next
        (window.perform stream.finish maxBuffer.toNat action) := by
  obtain ⟨next, performed, tracks⟩ := holding.tracks.step small (holding.guard small admissible)
  have spans_le := holding.spans_le_perform admissible
  refine ⟨next, performed, tracks, ?_, spans_le, ?_⟩
  · rcases lt_or_ge stream.finish (window.perform stream.finish maxBuffer.toNat action).next with
      beyond | within
    · have := holding.next_le
      have := released_perform_le holding.tracks.sound action
      obtain ⟨span, member, inside⟩ := tracks.sound.filled
        ((window.perform stream.finish maxBuffer.toNat action).next - 1) (by omega) (by omega)
      have := spans_le span member
      have := inside.2
      omega
    · exact within
  · intro entry member byte held
    rcases mem_append.mp member with earlier | last
    · exact held_mono holding.tracks.sound (holding.kept entry earlier byte held)
    · obtain rfl := mem_singleton.mp last
      rcases held with holds | accepts
      · exact held_mono holding.tracks.sound (.inr ((holding.tracks.holds_iff small).mp holds))
      · exact holding.accepted small admissible accepts

theorem Holding.outcome
    (small : maxBuffer.toNat + 1 < 2 ^ 31) : Reassembles stream (Admissible stream) trace receiver := by
  have tracks := holding.tracks
  have sound := tracks.sound
  have length := tracks.length_extracted
  have near := sound.near small
  obtain ⟨_, _⟩ := sound.nearNext small
  have data := tracks.data_eq
  have available : receiver.buffer.availBytes.toNat = window.next - window.released := by
    rw [tracks.buffer_eq]
    exact toNat_ofNat (by omega)
  have received : receiver.extracted.length + receiver.buffer.availBytes.toNat = window.next := by
    rw [length, available]
    exact Nat.add_sub_cancel' sound.released_le
  exact {
    prefixed := by
      refine ⟨by rw [length]; exact tracks.extracted_eq, ?_⟩
      rw [length]
      exact Nat.le_trans sound.released_le holding.next_le
    accounted := by
      rw [received, tracks.buffer_eq]
      rfl
    sized := by
      have bound : total window.spans ≤ window.released + 2 ^ 31 - window.released :=
        sound.ordered.total_le (by omega) fun span member =>
          ⟨(near span member).1.1, Nat.le_of_lt (near span member).2.2⟩
      have size : receiver.buffer.size.toNat = total window.spans := by
        rw [tracks.buffer_eq]
        exact toNat_ofNat (by omega)
      rw [size, data, List.map_map, total]
      refine congrArg List.sum (map_congr_left fun span _ => ?_)
      exact (length_entry span).symm
    apart := by
      rw [data, pairwise_map]
      refine sound.ordered.imp_of_mem fun {earlier later} first second follows => ?_
      rw [tracks.position_entry small first, tracks.position_entry small second, length_entry, Span.start_add_length]
      exact follows
    contents := by
      intro entry member
      rw [data] at member
      obtain ⟨span, inSpans, rfl⟩ := List.mem_map.mp member
      rw [tracks.position_entry small inSpans, length_entry, Span.start_add_length]
      rfl
    kept := by
      intro entry member byte held
      rw [length, tracks.holds_iff small]
      exact holding.kept entry member byte held
    proceeds := by
      intro action admissible
      obtain ⟨next, performed, -⟩ := holding.step small admissible
      rw [performed, isSome_some] }

end

/-- A receiver reassembles the stream in every run in which the numbers compared are less than
half the ring apart. -/
theorem reassembles (stream : ByteStream Byte) {maxBuffer : UInt32} (small : maxBuffer.toNat + 1 < 2 ^ 31)
    {trace : List (Receiver Byte × Action)} {receiver : Receiver Byte}
    (run : (system stream maxBuffer).Run trace receiver)
    (admissible : ∀ entry ∈ trace, entry.1.Admissible stream entry.2) :
    Reassembles stream (Admissible stream) trace receiver := by
  suffices ∃ window, Holding stream maxBuffer trace receiver window by
    obtain ⟨window, holding⟩ := this
    exact holding.outcome small
  induction run with
  | initial valid =>
    obtain rfl := valid
    exact ⟨.empty, .initial stream maxBuffer⟩
  | @step trace receiver action next prior transition ih =>
    obtain ⟨window, holding⟩ := ih fun entry member =>
      admissible entry (mem_append_left _ member)
    obtain ⟨reached, performed, continued⟩ := holding.step small (admissible (receiver, action) (by simp))
    obtain rfl : reached = next := some.inj (performed.symm.trans transition)
    exact ⟨_, continued⟩

/-- A stream of ten bytes, across the end of the sequence numbers. -/
def wrapping : ByteStream Nat :=
  ⟨⟨0xfffffffc⟩, fun position => 100 + position, 10⟩

/-- Slices out of order, overlapping on each side, covering and covered, and the FIN. -/
def shuffled : List Action :=
  [.add 5 6, .add 4 8, .setFin, .add 1 3, .add 0 2, .extract 1, .add 0 9, .add 2 10, .extract 100]

theorem shuffled_runs : ((system wrapping 32768).exec ⟨.construct 0xfffffffc 32768, []⟩ shuffled).isSome := by
  decide +kernel

theorem shuffled_admissible : ∀ entry ∈ (system wrapping 32768).steps ⟨.construct 0xfffffffc 32768, []⟩ shuffled,
    entry.1.Admissible wrapping entry.2 := by
  decide +kernel

theorem shuffled_reassembles : Reassembles wrapping (Admissible wrapping)
    ((system wrapping 32768).steps ⟨.construct 0xfffffffc 32768, []⟩ shuffled)
    (((system wrapping 32768).exec ⟨.construct 0xfffffffc 32768, []⟩ shuffled).get shuffled_runs) :=
  reassembles wrapping (by decide) (System.run_of_exec rfl (some_get shuffled_runs).symm) shuffled_admissible

example : (((system wrapping 32768).exec ⟨.construct 0xfffffffc 32768, []⟩ shuffled).get
    shuffled_runs).extracted = wrapping.slice 0 10 := by
  decide +kernel

/-- A stream numbered from 0, of bytes that count. -/
def counting (finish : Nat) : ByteStream Nat :=
  ⟨⟨0⟩, id, finish⟩

/-- Where a receiver stands when everything before a hole has been extracted, and a byte beyond
it is stored. -/
def beyondHole : Window :=
  ⟨2 ^ 30, 2 ^ 30, [⟨2 ^ 31 - 1, 2 ^ 31, by decide⟩], [⟨2 ^ 31 - 1, 2 ^ 31, by decide⟩], false⟩

theorem beyondHole_reached : ∃ trace receiver, (system (counting (2 ^ 40)) 32768).Run trace receiver ∧
    (∀ entry ∈ trace, entry.1.Within (counting (2 ^ 40)) entry.2) ∧
      Tracks (counting (2 ^ 40)) 32768 receiver beyondHole := by
  have filling : Window.empty.Guard (2 ^ 40) 32768 (.add 0 (2 ^ 30)) := {
    valid := by decide +kernel
    behind := by decide +kernel
    ahead := by decide +kernel
    near := fun first none => absurd none (by simp [Window.empty])
    beforeFin := fun got => absurd got Bool.false_ne_true }
  have filled : Window.empty.perform (2 ^ 40) 32768 (.add 0 (2 ^ 30)) =
      ⟨0, 2 ^ 30, [⟨0, 2 ^ 30, by decide⟩], [], false⟩ := by decide +kernel
  have emptied : (⟨0, 2 ^ 30, [⟨0, 2 ^ 30, by decide⟩], [], false⟩ : Window).perform (2 ^ 40) 32768
      (.extract (2 ^ 30)) = ⟨2 ^ 30, 2 ^ 30, [], [], false⟩ := by decide +kernel
  have skipping : (⟨2 ^ 30, 2 ^ 30, [], [], false⟩ : Window).Guard (2 ^ 40) 32768 (.add (2 ^ 31 - 1) (2 ^ 31)) := {
    valid := by decide +kernel
    behind := by decide +kernel
    ahead := by decide +kernel
    near := fun first none => absurd none (by simp)
    beforeFin := fun got => absurd got Bool.false_ne_true }
  have skipped : (⟨2 ^ 30, 2 ^ 30, [], [], false⟩ : Window).perform (2 ^ 40) 32768
      (.add (2 ^ 31 - 1) (2 ^ 31)) = beyondHole := by decide +kernel
  have small : (32768 : UInt32).toNat + 1 < 2 ^ 31 := by decide
  have start := Tracks.initial (counting (2 ^ 40)) 32768
  obtain ⟨first, firstPerformed, full⟩ := start.step_to small filling filled
  obtain ⟨second, secondPerformed, drained⟩ := full.step_to small
    (show Window.Guard _ _ _ (.extract (2 ^ 30)) from trivial) emptied
  obtain ⟨third, thirdPerformed, beyond⟩ := drained.step_to small skipping skipped
  have begins : (system (counting (2 ^ 40)) 32768).Run []
      ⟨.construct (counting (2 ^ 40)).isn.value 32768, []⟩ := .initial rfl
  have filledRun := run_perform begins firstPerformed
  have emptiedRun := run_perform filledRun secondPerformed
  refine ⟨_, third, run_perform emptiedRun thirdPerformed, ?_, beyond⟩
  have firstWithin : Within (counting (2 ^ 40)) ⟨.construct (counting (2 ^ 40)).isn.value 32768, []⟩
      (.add 0 (2 ^ 30)) := by
    refine ⟨by decide +kernel, by decide +kernel, ?_⟩
    rw [start.rcvNxt_eq small]
    decide +kernel
  have thirdWithin : Within (counting (2 ^ 40)) second (.add (2 ^ 31 - 1) (2 ^ 31)) := by
    refine ⟨by decide +kernel, by decide +kernel, ?_⟩
    rw [drained.rcvNxt_eq small]
    decide +kernel
  simp only [nil_append, cons_append, forall_mem_cons]
  exact ⟨firstWithin, trivial, thirdWithin, fun _ none => nomatch none⟩

/-- With a buffer of half the ring of sequence numbers, or a duplicate far behind the limit of
`Add`, an assertion fails; and a FIN a whole ring ahead is taken for the next byte. -/
theorem reassembly_fails : (¬ ∀ trace receiver, (system (counting 8) 0x80000002).Run trace receiver ->
      (∀ entry ∈ trace, entry.1.Within (counting 8) entry.2) ->
        Reassembles (counting 8) (Within (counting 8)) trace receiver) ∧
    (¬ ∀ trace receiver, (system (counting (2 ^ 40)) 32768).Run trace receiver ->
      (∀ entry ∈ trace, entry.1.Within (counting (2 ^ 40)) entry.2) ->
        Reassembles (counting (2 ^ 40)) (Within (counting (2 ^ 40))) trace receiver) ∧
    ¬ ∀ trace receiver, (system (counting (2 ^ 32)) 32768).Run trace receiver ->
      (∀ entry ∈ trace, entry.1.Within (counting (2 ^ 32)) entry.2) ->
        Reassembles (counting (2 ^ 32)) (Within (counting (2 ^ 32))) trace receiver := by
  refine ⟨fun reassembles => ?_, fun reassembles => ?_, fun reassembles => ?_⟩
  · have reassembled := reassembles _ _ (@System.run_of_exec _ _ (system (counting 8) 0x80000002) _ _ rfl [.add 0 8]
      (some_get (by decide +kernel)).symm) (by decide +kernel)
    exact absurd (reassembled.proceeds (.add 0 1) (by decide +kernel)) (by decide +kernel)
  · obtain ⟨trace, receiver, run, within, tracks⟩ := beyondHole_reached
    have proceeds := (reassembles trace receiver run within).proceeds (.add 0 1) (by
      refine ⟨by decide +kernel, by decide +kernel, ?_⟩
      rw [tracks.rcvNxt_eq (by decide)]
      decide +kernel)
    have fails : (beyondHole.view (counting (2 ^ 40)) 32768).add ((counting (2 ^ 40)).slice 0 1)
        ((counting (2 ^ 40)).seq 0) = none := by decide +kernel
    rw [perform, tracks.buffer_eq, fails] at proceeds
    exact Bool.false_ne_true proceeds
  · have reassembled := reassembles _ _ (@System.run_of_exec _ _ (system (counting (2 ^ 32)) 32768) _ _ rfl
      [.setFin, .add 0 8, .extract 8] (some_get (by decide +kernel)).symm) (by decide +kernel)
    exact absurd reassembled.prefixed.1 (by decide +kernel)

end Ns3.Internet.Receiver
