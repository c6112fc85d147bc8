import Ns3.Internet.TcpRxBuffer.Reassembly

/-!
# The receive window

`window_enforced` says in which runs no byte is stored that `MaxRxSequence` does not admit: those in
which the packets added end at that limit. `Add` has no limit while nothing is stored, counts from
the first packet stored when that is beyond a hole, and knows no FIN.
-/

namespace Ns3.Internet

open Ns3.Semantics Ns3.Semantics.Spans List Option Nat ByteStream

namespace Receiver

variable {Byte : Type}

variable (stream : ByteStream Byte)

variable (receiver : Receiver Byte)

/-- The position of `MaxRxSequence`. -/
def maxRx : Nat :=
  receiver.position stream receiver.buffer.maxRxSequence

/-- The position `MaxRxSequence` has without a FIN. -/
def windowEnd : Nat :=
  receiver.position stream { receiver.buffer with gotFin := false }.maxRxSequence

/-- Where `Add` and `MaxRxSequence` have one limit: unread data is stored and no FIN has come, or the
limit of `Add` is not beyond the FIN. -/
def LimitsAgree : Prop :=
  (receiver.buffer.gotFin = false ∧
      ∃ first ∈ receiver.buffer.data.head?, receiver.position stream first.1 < receiver.rcvNxt stream) ∨
    receiver.buffer.gotFin = true ∧ ∃ first ∈ receiver.buffer.data.head?,
      receiver.position stream first.1 + receiver.buffer.maxBuffer.toNat ≤ stream.finish

/-- A packet is old, or begins beyond the limit that `Add` has while something is stored. -/
def Dropped (start stop : Nat) : Prop :=
  stop ≤ max start (receiver.rcvNxt stream) ∨ ∃ first ∈ receiver.buffer.data.head?,
    receiver.position stream first.1 + receiver.buffer.maxBuffer.toNat ≤ max start (receiver.rcvNxt stream)

instance (stream : ByteStream Byte) (receiver : Receiver Byte) : Decidable (receiver.LimitsAgree stream) :=
  have : Decidable (∃ first ∈ receiver.buffer.data.head?,
      receiver.position stream first.1 < receiver.rcvNxt stream) :=
    Option.decidableExistsMem _
  have : Decidable (∃ first ∈ receiver.buffer.data.head?,
      receiver.position stream first.1 + receiver.buffer.maxBuffer.toNat ≤ stream.finish) :=
    Option.decidableExistsMem _
  inferInstanceAs (Decidable (_ ∨ _))

instance (stream : ByteStream Byte) (receiver : Receiver Byte) (start stop : Nat) :
    Decidable (receiver.Dropped stream start stop) :=
  have : Decidable (∃ first ∈ receiver.buffer.data.head?, receiver.position stream first.1 +
      receiver.buffer.maxBuffer.toNat ≤ max start (receiver.rcvNxt stream)) :=
    Option.decidableExistsMem _
  inferInstanceAs (Decidable (_ ∨ _))

/-- Where the limits differ, a packet that is not dropped ends within `MaxRxSequence`; and the FIN is
within the window, with nothing stored beyond it. -/
def InWindow : Action -> Prop
  | .add start stop => receiver.Near stream start stop ∧
      (receiver.LimitsAgree stream ∨ stop ≤ receiver.maxRx stream ∨ receiver.Dropped stream start stop)
  | .setFin => receiver.extracted.length + receiver.buffer.availBytes.toNat ≤ stream.finish ∧
      stream.finish ≤ receiver.windowEnd stream ∧ ∀ entry ∈ receiver.buffer.data,
        receiver.position stream entry.1 + entry.2.length ≤ stream.finish
  | .extract _ => True

instance (stream : ByteStream Byte) (receiver : Receiver Byte) :
    (action : Action) -> Decidable (receiver.InWindow stream action)
  | .add _ _ => inferInstanceAs (Decidable (_ ∧ _))
  | .setFin => inferInstanceAs (Decidable (_ ∧ _))
  | .extract _ => isTrue trivial

/-- The window is enforced by the steps of a trace, and in the state reached. -/
structure EnforcesWindow (stream : ByteStream Byte) (trace : List (Receiver Byte × Action))
    (receiver : Receiver Byte) : Prop where
  /-- After a packet has been added, nothing is stored that `MaxRxSequence` did not admit. -/
  admitted : ∀ entry ∈ trace, ∀ start stop after, entry.2 = .add start stop ->
    entry.1.perform stream entry.2 = some after -> ∀ byte, after.Holds stream byte -> byte < entry.1.maxRx stream
  sized : receiver.buffer.size ≤ receiver.buffer.maxBuffer

end Receiver

namespace Window

variable {finish maxBuffer start stop : Nat} {window : Window} {action : Action}

/-- What the steps rely on: everything held is within the size of the buffer. -/
structure Inside (finish maxBuffer : Nat) (window : Window) : Prop where
  spans : ∀ span ∈ window.spans, span.stop ≤ window.released + maxBuffer
  fin : window.gotFin = true -> finish ≤ window.released + maxBuffer

/-- The limit that `MaxRxSequence` returns without a FIN. -/
def windowEnd (finish maxBuffer : Nat) (window : Window) : Nat :=
  if window.released < window.next then window.released + maxBuffer
  else window.rcvNxt finish + maxBuffer

def maxRx (finish maxBuffer : Nat) (window : Window) : Nat :=
  if window.gotFin then finish else window.windowEnd finish maxBuffer

theorem le_windowEnd (sound : Sound finish maxBuffer window) :
    window.released + maxBuffer ≤ window.windowEnd finish maxBuffer := by
  have := sound.released_le
  have := @next_le_rcvNxt finish window
  rw [windowEnd]
  split <;> omega

theorem windowEnd_of_open (sound : Sound finish maxBuffer window) (notGot : window.gotFin = false) :
    window.windowEnd finish maxBuffer = window.released + maxBuffer := by
  have isNext : window.rcvNxt finish = window.next := by
    rw [rcvNxt, if_neg fun both => Bool.false_ne_true (notGot.symm.trans both.1)]
  have := sound.released_le
  rw [windowEnd, isNext]
  split <;> omega

theorem Inside.maxRx_le (inside : Inside finish maxBuffer window) (sound : Sound finish maxBuffer window) :
    window.maxRx finish maxBuffer ≤ window.released + maxBuffer := by
  rw [maxRx]
  cases got : window.gotFin with
  | true => exact inside.fin got
  | false => exact le_of_eq (windowEnd_of_open sound got)

theorem Inside.lt_maxRx (inside : Inside finish maxBuffer window) (sound : Sound finish maxBuffer window)
    {byte : Nat} (covered : Covered window.spans byte) : byte < window.maxRx finish maxBuffer := by
  obtain ⟨span, member, within⟩ := covered
  rw [maxRx]
  split
  next got => exact lt_of_lt_of_le within.2 ((sound.closed got).2 span member)
  next notGot =>
    exact lt_of_lt_of_le within.2 (le_trans (inside.spans span member) (le_windowEnd sound))

section

variable (sound : Sound finish maxBuffer window) (inside : Inside finish maxBuffer window)
include sound inside

theorem lt_maxRx_add (admitted : ∀ byte, max start (window.rcvNxt finish) ≤ byte ->
      byte < window.limit maxBuffer stop -> byte < window.maxRx finish maxBuffer) {byte : Nat}
    (covered : Covered (window.add finish maxBuffer start stop).1.spans byte) :
    byte < window.maxRx finish maxBuffer := by
  rcases (covered_add sound.ordered).mp covered with old | ⟨above, below⟩
  · exact inside.lt_maxRx sound old
  · exact admitted byte above below

theorem Inside.add (admitted : ∀ byte, max start (window.rcvNxt finish) ≤ byte ->
      byte < window.limit maxBuffer stop -> byte < window.maxRx finish maxBuffer) :
    Inside finish maxBuffer (window.add finish maxBuffer start stop).1 where
  spans := by
    intro span member
    have := span.nonempty
    have last := lt_maxRx_add sound inside admitted ⟨span, member, (by omega : span.start ≤ span.stop - 1),
      by omega⟩
    have := inside.maxRx_le sound
    rw [released_add]
    omega
  fin := by
    intro got
    rw [released_add]
    exact inside.fin (by rwa [gotFin_add] at got)

theorem Inside.extract (maxSize : Nat) : Inside finish maxBuffer (window.extract maxSize) where
  spans := by
    intro span member
    obtain ⟨-, whole, old, stops, -⟩ := mem_cut sound.ordered member
    have := inside.spans whole old
    have := (released_extract sound maxSize).1
    omega
  fin := by
    intro got
    have := inside.fin got
    have := (released_extract sound maxSize).1
    omega

theorem Inside.setFin (within : finish ≤ window.windowEnd finish maxBuffer) :
    Inside finish maxBuffer window.setFin where
  spans := inside.spans
  fin := by
    intro
    cases got : window.gotFin with
    | true => exact inside.fin got
    | false => exact le_trans within (le_of_eq (windowEnd_of_open sound got))

end

end Window

namespace Receiver

variable {Byte : Type} {stream : ByteStream Byte} {maxBuffer : UInt32} {receiver : Receiver Byte}
  {window : Window} {trace : List (Receiver Byte × Action)} {action : Action}

namespace Tracks

variable (tracks : Tracks stream maxBuffer receiver window) (small : maxBuffer.toNat + 1 < 2 ^ 31)
include tracks small

theorem windowEnd_eq : receiver.windowEnd stream = window.windowEnd stream.finish maxBuffer.toNat := by
  have sound := tracks.sound
  obtain ⟨_, _⟩ := sound.nearRcvNxt small
  have limit (position : Nat) : stream.seq position + maxBuffer = stream.seq (position + maxBuffer.toNat) := by
    rw [← seq_add, UInt32.ofNat_toNat]
  have number : ({ receiver.buffer with gotFin := false } : TcpRxBuffer Byte).maxRxSequence =
      stream.seq (window.windowEnd stream.finish maxBuffer.toNat) := by
    have := sound.released_le
    have := @Window.next_le_rcvNxt stream.finish window
    have := @Window.rcvNxt_le stream.finish window
    rw [tracks.buffer_eq, TcpRxBuffer.maxRxSequence, Window.windowEnd]
    simp only [Window.view, Bool.false_eq_true, if_false]
    cases isHeld : window.spans with
    | nil =>
      have read : ¬ window.released < window.next := fun unread => by
        obtain ⟨span, member, -⟩ := sound.filled window.released (le_refl _) unread
        rw [isHeld] at member
        exact not_mem_nil member
      rw [if_neg read]
      exact limit _
    | cons first rest =>
      have member : first ∈ window.spans := by rw [isHeld]; exact mem_cons_self
      have above := sound.above first member
      have behind : stream.seq first.start < stream.seq (window.rcvNxt stream.finish) ↔
          first.start < window.rcvNxt stream.finish :=
        seq_lt_iff (sound.near small first member).1 (sound.nearRcvNxt small)
      change (if stream.seq first.start < stream.seq (window.rcvNxt stream.finish) then
        stream.seq first.start + maxBuffer else stream.seq (window.rcvNxt stream.finish) + maxBuffer) = _
      by_cases unread : window.released < window.next
      · have starts := sound.first_start unread (show first ∈ window.spans.head? by rw [isHeld]; rfl)
        rw [if_pos (behind.mpr (by omega)), if_pos unread, ← starts]
        exact limit _
      · have := first.nonempty
        have ahead := sound.gap first member
        rw [if_neg (mt behind.mp (by omega)), if_neg unread]
        exact limit _
  rw [windowEnd, number]
  refine tracks.position_seq ?_ ?_
  · exact le_trans (le_add_right _ _) (Window.le_windowEnd sound)
  · rw [Window.windowEnd]
    split <;> omega

/-- Where the limits agree, `Add` cuts a packet where `MaxRxSequence` ends. -/
theorem limit_le_maxRx (agree : receiver.LimitsAgree stream) (stop : Nat) :
    window.limit maxBuffer.toNat stop ≤ window.maxRx stream.finish maxBuffer.toNat := by
  have sound := tracks.sound
  have gotFin : receiver.buffer.gotFin = window.gotFin := by
    rw [tracks.buffer_eq]
    rfl
  have limit {first : Span} (isFirst : first ∈ window.spans.head?) :
      window.limit maxBuffer.toNat stop ≤ first.start + maxBuffer.toNat := by
    rw [Window.limit]
    cases isHeld : window.spans with
    | nil =>
      rw [isHeld] at isFirst
      cases isFirst
    | cons held rest =>
      rw [isHeld] at isFirst
      cases isFirst
      exact min_le_right _ _
  rw [LimitsAgree, gotFin, tracks.maxBuffer_eq, tracks.rcvNxt_eq small,
    tracks.exists_first_iff small fun start => start < window.rcvNxt stream.finish,
    tracks.exists_first_iff small fun start => start + maxBuffer.toNat ≤ stream.finish] at agree
  rcases agree with ⟨isOpen, first, isFirst, unread⟩ | ⟨closed, first, isFirst, ends⟩
  · have member := mem_of_mem_head? isFirst
    have := sound.gap first member
    have := sound.above first member
    have := first.nonempty
    have isNext : window.rcvNxt stream.finish = window.next := by
      rw [Window.rcvNxt, if_neg fun both => Bool.false_ne_true (isOpen.symm.trans both.1)]
    have starts := sound.first_start (by omega) isFirst
    rw [Window.maxRx, if_neg (by rw [isOpen]; exact Bool.false_ne_true),
      Window.windowEnd_of_open sound isOpen, ← starts]
    exact limit isFirst
  · rw [Window.maxRx, if_pos closed]
    exact le_trans (limit isFirst) ends

section

variable (inside : window.Inside stream.finish maxBuffer.toNat)
include inside

theorem maxRx_eq : receiver.maxRx stream = window.maxRx stream.finish maxBuffer.toNat := by
  have sound := tracks.sound
  cases got : window.gotFin with
  | true =>
    have number : receiver.buffer.maxRxSequence = stream.seq stream.finish := by
      rw [tracks.buffer_eq, TcpRxBuffer.maxRxSequence]
      simp only [Window.view, got, if_true]
    have := (sound.closed got).1
    have := inside.fin got
    have := sound.released_le
    rw [maxRx, number, Window.maxRx, if_pos got]
    exact tracks.position_seq (by omega) (by omega)
  | false =>
    have isOpen : receiver.buffer.gotFin = false := by
      rw [tracks.buffer_eq]
      exact got
    have same : receiver.buffer.maxRxSequence =
        ({ receiver.buffer with gotFin := false } : TcpRxBuffer Byte).maxRxSequence := by
      rw [← isOpen]
    rw [maxRx, same, Window.maxRx, if_neg (by rw [got]; exact Bool.false_ne_true)]
    exact tracks.windowEnd_eq small

theorem admitted_of_inWindow {start stop : Nat} (inWindow : receiver.InWindow stream (.add start stop)) :
    ∀ byte, max start (window.rcvNxt stream.finish) ≤ byte -> byte < window.limit maxBuffer.toNat stop ->
      byte < window.maxRx stream.finish maxBuffer.toNat := by
  intro byte above below
  have beforeStop := ((tracks.inLimit_iff small).mpr below).2
  rcases inWindow.2 with agree | ends | dropped
  · exact lt_of_lt_of_le below (tracks.limit_le_maxRx small agree stop)
  · rw [tracks.maxRx_eq small inside] at ends
    exact lt_of_lt_of_le beforeStop ends
  · rw [Dropped, tracks.maxBuffer_eq, tracks.rcvNxt_eq small, tracks.exists_first_iff small fun first =>
      first + maxBuffer.toNat ≤ max start (window.rcvNxt stream.finish)] at dropped
    rcases dropped with old | ⟨first, isFirst, beyond⟩
    · omega
    · have inLimit := ((tracks.inLimit_iff small).mpr below).1
      rw [InLimit, tracks.maxBuffer_eq, tracks.forall_first_iff small fun first => byte < first + maxBuffer.toNat]
        at inLimit
      have := inLimit first isFirst
      omega

theorem guard_of_inWindow
    (inWindow : receiver.InWindow stream action) : window.Guard stream.finish maxBuffer.toNat action := by
  have sound := tracks.sound
  cases action with
  | add start stop =>
    refine tracks.addGuard_of_near small inWindow.1 fun got byte above below _ => ?_
    have admitted := tracks.admitted_of_inWindow small inside inWindow byte above below
    rwa [Window.maxRx, if_pos got] at admitted
  | setFin =>
    obtain ⟨received, within, stored⟩ := inWindow
    rw [tracks.windowEnd_eq small] at within
    have available : receiver.buffer.availBytes.toNat = window.next - window.released := by
      obtain ⟨_, _⟩ := sound.nearNext small
      rw [tracks.buffer_eq]
      exact toNat_ofNat (by omega)
    have := sound.released_le
    have := @Window.rcvNxt_le stream.finish window
    rw [tracks.length_extracted, available, Nat.add_sub_cancel' sound.released_le] at received
    refine ⟨⟨received, fun span member => ?_⟩, ?_⟩
    · have ends := stored (stream.entry span) (by rw [tracks.data_eq]; exact List.mem_map_of_mem member)
      rwa [tracks.position_entry small member, length_entry, Span.start_add_length] at ends
    · rw [Window.windowEnd] at within
      split at within <;> omega
  | extract maxSize => trivial

theorem inside_perform (inWindow : receiver.InWindow stream action) :
    (window.perform stream.finish maxBuffer.toNat action).Inside stream.finish maxBuffer.toNat := by
  cases action with
  | add start stop =>
    exact Window.Inside.add tracks.sound inside (tracks.admitted_of_inWindow small inside inWindow)
  | setFin =>
    have within := inWindow.2.1
    rw [tracks.windowEnd_eq small] at within
    exact inside.setFin tracks.sound within
  | extract maxSize => exact inside.extract tracks.sound maxSize.toNat

theorem sized : receiver.buffer.size ≤ receiver.buffer.maxBuffer := by
  have sound := tracks.sound
  have bound : total window.spans ≤ window.released + maxBuffer.toNat - window.released :=
    sound.ordered.total_le (by omega) fun span member => ⟨sound.above span member, inside.spans span member⟩
  have size : receiver.buffer.size.toNat = total window.spans := by
    rw [tracks.buffer_eq]
    exact toNat_ofNat (by omega)
  rw [UInt32.le_iff_toNat_le, size, tracks.maxBuffer_eq]
  omega

end

end Tracks

/-- The window is enforced in every run of actions within it. -/
theorem window_enforced (stream : ByteStream Byte) {maxBuffer : UInt32}
    (small : maxBuffer.toNat + 1 < 2 ^ 31) {trace : List (Receiver Byte × Action)} {receiver : Receiver Byte}
    (run : (system stream maxBuffer).Run trace receiver)
    (inWindow : ∀ entry ∈ trace, entry.1.InWindow stream entry.2) : EnforcesWindow stream trace receiver := by
  suffices ∃ window, Tracks stream maxBuffer receiver window ∧
      window.Inside stream.finish maxBuffer.toNat ∧
        ∀ entry ∈ trace, ∀ start stop after, entry.2 = .add start stop ->
          entry.1.perform stream entry.2 = some after -> ∀ byte, after.Holds stream byte ->
            byte < entry.1.maxRx stream by
    obtain ⟨window, tracks, inside, admitted⟩ := this
    exact ⟨admitted, tracks.sized small inside⟩
  induction run with
  | initial valid =>
    obtain rfl := valid
    refine ⟨.empty, .initial stream maxBuffer, ⟨fun _ none => absurd none not_mem_nil, ?_⟩,
      fun _ none => absurd none not_mem_nil⟩
    exact fun got => absurd got Bool.false_ne_true
  | @step trace receiver action next prior transition ih =>
    obtain ⟨window, tracks, inside, admitted⟩ := ih fun entry member =>
      inWindow entry (mem_append_left _ member)
    have now : receiver.InWindow stream action := inWindow (receiver, action) (by simp)
    obtain ⟨reached, performed, continued⟩ := tracks.step small (tracks.guard_of_inWindow small inside now)
    obtain rfl : reached = next := some.inj (performed.symm.trans transition)
    refine ⟨_, continued, tracks.inside_perform small inside now, fun entry member => ?_⟩
    rcases mem_append.mp member with earlier | last
    · exact admitted entry earlier
    · obtain rfl := mem_singleton.mp last
      rintro start stop after rfl stepped byte holds
      obtain rfl : reached = after := some.inj (performed.symm.trans stepped)
      rw [continued.holds_iff small] at holds
      change byte < receiver.maxRx stream
      rw [tracks.maxRx_eq small inside]
      exact Window.lt_maxRx_add tracks.sound inside (tracks.admitted_of_inWindow small inside now) holds

/-- A full window, a packet cut at its end, and a FIN with its last bytes behind a hole. -/
def filling : List Action :=
  [.add 0 4, .extract 2, .add 6 8, .setFin, .add 3 12, .extract 100, .add 9 10]

theorem filling_runs : ((system wrapping 8).exec ⟨.construct 0xfffffffc 8, []⟩ filling).isSome := by
  decide +kernel

theorem filling_inWindow : ∀ entry ∈ (system wrapping 8).steps ⟨.construct 0xfffffffc 8, []⟩ filling,
    entry.1.InWindow wrapping entry.2 := by
  decide +kernel

theorem filling_enforces : EnforcesWindow wrapping ((system wrapping 8).steps ⟨.construct 0xfffffffc 8, []⟩ filling)
    (((system wrapping 8).exec ⟨.construct 0xfffffffc 8, []⟩ filling).get filling_runs) :=
  window_enforced wrapping (by decide) (System.run_of_exec rfl (some_get filling_runs).symm) filling_inWindow

/-- `Add` has no limit while nothing is stored, counts from the first packet stored beyond a
hole, and stores beyond the FIN. -/
theorem window_exceeded : (¬ ∀ trace receiver, (system (counting 20) 10).Run trace receiver ->
      (∀ entry ∈ trace, entry.1.Within (counting 20) entry.2) -> EnforcesWindow (counting 20) trace receiver) ∧
    (∀ before after, (system (counting 20) 10).exec ⟨.construct 0 10, []⟩ [.add 5 6] = some before ->
      before.perform (counting 20) (.add 2 14) = some after ->
        after.Holds (counting 20) 13 ∧ before.maxRx (counting 20) < 13) ∧
    ¬ ∀ trace receiver, (system (counting 4) 10).Run trace receiver -> EnforcesWindow (counting 4) trace receiver := by
  refine ⟨fun enforces => ?_, fun before after runs performed => ?_, fun enforces => ?_⟩
  · have enforced := enforces _ _ (@System.run_of_exec _ _ (system (counting 20) 10) _ _ rfl [.add 0 20]
      (some_get (by decide +kernel)).symm) (by decide +kernel)
    exact absurd enforced.sized (by decide +kernel)
  · cases runs.symm.trans (some_get (by decide +kernel)).symm
    cases performed.symm.trans (some_get (by decide +kernel)).symm
    decide +kernel
  · have enforced := enforces _ _ (@System.run_of_exec _ _ (system (counting 4) 10) _ _ rfl
      [.add 0 2, .setFin, .add 2 8] (some_get (by decide +kernel)).symm)
    have admitted := enforced.admitted (_, .add 2 8) (mem_of_getElem? (show _[2]? = _ from rfl)) 2 8 _ rfl
      (some_get (by decide +kernel)).symm 7 (by decide +kernel)
    exact absurd admitted (by decide +kernel)

end Receiver

end Ns3.Internet
