import Ns3.Internet.TcpRxBuffer.Simulation
import Ns3.Semantics.Run

/-!
# Receivers

A `Receiver` is a buffer together with what its application has extracted. It is given slices
of a stream, told where the stream ends, and extracted from, in any order. `Tracks` ties it to
the window it stands for, step by step.
-/

namespace Ns3.Internet

open List ByteStream Window
open Ns3.Network (SequenceNumber32)
open Ns3.Semantics Ns3.Semantics.Spans

@[ext]
structure Receiver (Byte : Type) where
  buffer : TcpRxBuffer Byte
  /-- The packets extracted so far, in order. -/
  extracted : List Byte
  deriving DecidableEq

inductive Action where
  /-- `Add` of the slice from one position of the stream to another. -/
  | add (start stop : Nat)
  /-- `SetFinSequence` at the end of the stream. -/
  | setFin
  | extract (maxSize : UInt32)
  deriving DecidableEq

variable {Byte : Type}

namespace Receiver

variable (stream : ByteStream Byte)

variable (receiver : Receiver Byte)

def perform : Action -> Option (Receiver Byte)
  | .add start stop =>
    (receiver.buffer.add (stream.slice start stop) (stream.seq start)).map fun result =>
      { receiver with buffer := result.1 }
  | .setFin =>
    some { receiver with buffer := receiver.buffer.setFinSequence (stream.seq stream.finish) }
  | .extract maxSize =>
    (receiver.buffer.extract maxSize).map fun result =>
      ⟨result.1, receiver.extracted ++ result.2.getD []⟩

/-- A receiver of a stream, from the construction of its buffer on. -/
def system (maxBuffer : UInt32) : System (Receiver Byte) Action where
  Initial receiver := receiver = ⟨.construct stream.isn.value maxBuffer, []⟩
  step := perform stream

theorem run_perform {stream : ByteStream Byte} {maxBuffer : UInt32} {receiver next : Receiver Byte}
    {trace : List (Receiver Byte × Action)} {action : Action}
    (run : (system stream maxBuffer).Run trace receiver)
    (performed : receiver.perform stream action = some next) :
    (system stream maxBuffer).Run (trace ++ [(receiver, action)]) next :=
  run.step performed

/-- The position of the stream that a sequence number stands for, at or after the first byte
not yet extracted. -/
def position (number : SequenceNumber32) : Nat :=
  receiver.extracted.length + (number.value - (stream.seq receiver.extracted.length).value).toNat

/-- The position of RCV.NXT. -/
def rcvNxt : Nat :=
  receiver.position stream receiver.buffer.nextRxSeq

/-- A packet stored holds the byte at a position. -/
def Holds (byte : Nat) : Prop :=
  ∃ entry ∈ receiver.buffer.data, receiver.position stream entry.1 ≤ byte ∧
    byte < receiver.position stream entry.1 + entry.2.length

instance (stream : ByteStream Byte) (receiver : Receiver Byte) (byte : Nat) :
    Decidable (receiver.Holds stream byte) :=
  inferInstanceAs (Decidable (∃ entry ∈ receiver.buffer.data, _))

/-- A byte of a packet added is within the limit of `Add`, which counts from the first packet
stored. -/
def InLimit (byte : Nat) : Prop :=
  ∀ first ∈ receiver.buffer.data.head?, byte < receiver.position stream first.1 + receiver.buffer.maxBuffer.toNat

instance (stream : ByteStream Byte) (receiver : Receiver Byte) (byte : Nat) :
    Decidable (receiver.InLimit stream byte) :=
  Option.decidableForallMem _

/-- A slice is within 2^30 of RCV.NXT, and its end less than half the ring of sequence numbers
from the limit of `Add`. -/
structure Near (stream : ByteStream Byte) (receiver : Receiver Byte) (start stop : Nat) : Prop where
  valid : start ≤ stop
  behind : receiver.rcvNxt stream ≤ start + 2 ^ 30
  ahead : stop ≤ receiver.rcvNxt stream + 2 ^ 30
  limit : ∀ first ∈ receiver.buffer.data.head?,
    receiver.position stream first.1 + receiver.buffer.maxBuffer.toNat < stop + 2 ^ 31 ∧
      stop < receiver.position stream first.1 + receiver.buffer.maxBuffer.toNat + 2 ^ 31

instance (stream : ByteStream Byte) (receiver : Receiver Byte) (start stop : Nat) :
    Decidable (receiver.Near stream start stop) :=
  have : Decidable (∀ first ∈ receiver.buffer.data.head?,
      receiver.position stream first.1 + receiver.buffer.maxBuffer.toNat < stop + 2 ^ 31 ∧
        stop < receiver.position stream first.1 + receiver.buffer.maxBuffer.toNat + 2 ^ 31) :=
    Option.decidableForallMem _
  decidable_of_iff (start ≤ stop ∧ receiver.rcvNxt stream ≤ start + 2 ^ 30 ∧
      stop ≤ receiver.rcvNxt stream + 2 ^ 30 ∧ ∀ first ∈ receiver.buffer.data.head?,
      receiver.position stream first.1 + receiver.buffer.maxBuffer.toNat < stop + 2 ^ 31 ∧
        stop < receiver.position stream first.1 + receiver.buffer.maxBuffer.toNat + 2 ^ 31)
    ⟨fun all => ⟨all.1, all.2.1, all.2.2.1, all.2.2.2⟩, fun near =>
      ⟨near.valid, near.behind, near.ahead, near.limit⟩⟩

/-- A receiver stands where a window does. -/
structure Tracks (stream : ByteStream Byte) (maxBuffer : UInt32) (receiver : Receiver Byte)
    (window : Window) : Prop where
  buffer_eq : receiver.buffer = window.view stream maxBuffer
  extracted_eq : receiver.extracted = stream.slice 0 window.released
  sound : window.Sound stream.finish maxBuffer.toNat

end Receiver

namespace Window

variable (finish maxBuffer : Nat) (window : Window)

def perform : Action -> Window
  | .add start stop => (window.add finish maxBuffer start stop).1
  | .setFin => window.setFin
  | .extract maxSize => window.extract maxSize.toNat

/-- What an action meets to keep a window sound. -/
def Guard : Action -> Prop
  | .add start stop => AddGuard finish maxBuffer window start stop
  | .setFin => (window.next ≤ finish ∧ ∀ span ∈ window.spans, span.stop ≤ finish) ∧ finish < window.next + 2 ^ 32
  | .extract _ => True

end Window

namespace Receiver.Tracks

variable {stream : ByteStream Byte} {maxBuffer : UInt32} {receiver : Receiver Byte} {window : Window}
  {action : Action} {byte x : Nat}

theorem initial (stream : ByteStream Byte) (maxBuffer : UInt32) :
    Tracks stream maxBuffer ⟨.construct stream.isn.value maxBuffer, []⟩ .empty where
  buffer_eq := by
    refine TcpRxBuffer.ext ?_ rfl rfl rfl rfl rfl rfl rfl
    exact congrArg SequenceNumber32.mk (UInt32.add_zero _).symm
  extracted_eq := slice_self.symm
  sound := empty_sound

section

variable (tracks : Tracks stream maxBuffer receiver window) (small : maxBuffer.toNat + 1 < 2 ^ 31)
include tracks

theorem data_eq : receiver.buffer.data = window.spans.map stream.entry := by
  rw [tracks.buffer_eq]
  rfl

theorem sackList_eq : receiver.buffer.sackList = window.sack.map stream.block := by
  rw [tracks.buffer_eq]
  rfl

theorem maxBuffer_eq : receiver.buffer.maxBuffer = maxBuffer := by
  rw [tracks.buffer_eq]
  rfl

theorem length_extracted : receiver.extracted.length = window.released := by
  rw [tracks.extracted_eq, length_slice, Nat.sub_zero]

theorem position_seq (above : window.released ≤ x) (below : x < window.released + 2 ^ 32) :
    receiver.position stream (stream.seq x) = x := by
  rw [position, tracks.length_extracted]
  have start := SequenceNumber32.toNat_offset stream.isn window.released
  have other := SequenceNumber32.toNat_offset stream.isn x
  rw [UInt32.toNat_sub]
  change window.released + (2 ^ 32 - (stream.isn + UInt32.ofNat window.released).value.toNat +
    (stream.isn + UInt32.ofNat x).value.toNat) % 2 ^ 32 = x
  omega

include small

theorem rcvNxt_eq : receiver.rcvNxt stream = window.rcvNxt stream.finish := by
  obtain ⟨_, _⟩ := tracks.sound.nearRcvNxt small
  rw [rcvNxt, tracks.buffer_eq]
  exact tracks.position_seq (by omega) (by omega)

theorem position_entry {span : Span} (mem : span ∈ window.spans) :
    receiver.position stream (stream.entry span).1 = span.start := by
  obtain ⟨⟨_, _⟩, -⟩ := tracks.sound.near small span mem
  exact tracks.position_seq (by omega) (by omega)

theorem holds_iff : receiver.Holds stream byte ↔ Covered window.spans byte := by
  rw [Holds, tracks.data_eq]
  constructor
  · rintro ⟨entry, mem, inside⟩
    obtain ⟨span, inSpans, rfl⟩ := List.mem_map.mp mem
    rw [tracks.position_entry small inSpans, length_entry, Span.start_add_length] at inside
    exact ⟨span, inSpans, inside⟩
  · rintro ⟨span, inSpans, inside⟩
    refine ⟨stream.entry span, List.mem_map_of_mem inSpans, ?_⟩
    rw [tracks.position_entry small inSpans, length_entry, Span.start_add_length]
    exact inside

theorem forall_first_iff (property : Nat -> Prop) :
    (∀ first ∈ receiver.buffer.data.head?, property (receiver.position stream first.1)) ↔
      ∀ first ∈ window.spans.head?, property first.start := by
  rw [tracks.data_eq, head?_map]
  constructor
  · intro all first isFirst
    have held := all (stream.entry first) (Option.mem_map_of_mem _ isFirst)
    rwa [tracks.position_entry small (mem_of_mem_head? isFirst)] at held
  · intro all entry isFirst
    obtain ⟨first, begins, rfl⟩ := Option.mem_map.mp isFirst
    rw [tracks.position_entry small (mem_of_mem_head? begins)]
    exact all first begins

theorem exists_first_iff (property : Nat -> Prop) :
    (∃ first ∈ receiver.buffer.data.head?, property (receiver.position stream first.1)) ↔
      ∃ first ∈ window.spans.head?, property first.start := by
  simpa only [not_forall, not_not, exists_prop] using
    not_congr (tracks.forall_first_iff small fun start => ¬ property start)

theorem inLimit_iff : receiver.InLimit stream byte ∧ byte < x ↔ byte < window.limit maxBuffer.toNat x := by
  rw [InLimit, tracks.maxBuffer_eq, tracks.forall_first_iff small fun start => byte < start + maxBuffer.toNat, limit]
  cases window.spans with
  | nil => simp
  | cons first rest => simp [and_comm]

/-- A slice near RCV.NXT is near for the window too. -/
theorem addGuard_of_near {start stop : Nat} (near : receiver.Near stream start stop)
    (beforeFin : window.gotFin = true -> ∀ byte, max start (window.rcvNxt stream.finish) ≤ byte ->
      byte < window.limit maxBuffer.toNat stop -> ¬ Covered window.spans byte -> byte < stream.finish) :
    window.AddGuard stream.finish maxBuffer.toNat start stop := by
  have isNext := tracks.rcvNxt_eq small
  have nearLimit := near.limit
  rw [tracks.maxBuffer_eq, tracks.forall_first_iff small fun first =>
    first + maxBuffer.toNat < stop + 2 ^ 31 ∧ stop < first + maxBuffer.toNat + 2 ^ 31] at nearLimit
  exact {
    valid := near.valid
    behind := isNext ▸ near.behind
    ahead := isNext ▸ near.ahead
    near := nearLimit
    beforeFin := beforeFin }

end

theorem step (tracks : Tracks stream maxBuffer receiver window) (small : maxBuffer.toNat + 1 < 2 ^ 31)
    (guarded : window.Guard stream.finish maxBuffer.toNat action) :
    ∃ next, receiver.perform stream action = some next ∧
      Tracks stream maxBuffer next (window.perform stream.finish maxBuffer.toNat action) := by
  cases action with
  | add start stop =>
    have released : (window.add stream.finish maxBuffer.toNat start stop).1.released = window.released :=
      released_add
    refine ⟨⟨(window.add stream.finish maxBuffer.toNat start stop).1.view stream maxBuffer,
      receiver.extracted⟩, ?_, rfl, tracks.extracted_eq.trans (congrArg _ released.symm),
      tracks.sound.add guarded⟩
    rw [perform, tracks.buffer_eq, add_view tracks.sound guarded small]
    rfl
  | setFin =>
    refine ⟨_, rfl, ?_, tracks.extracted_eq, tracks.sound.setFin guarded.1 guarded.2⟩
    rw [tracks.buffer_eq]
    exact setFin_view guarded.1.1 guarded.2
  | extract maxSize =>
    refine ⟨⟨(window.extract maxSize.toNat).view stream maxBuffer,
      stream.slice 0 (window.extract maxSize.toNat).released⟩, ?_, rfl, rfl, tracks.sound.extract _⟩
    obtain ⟨further, -⟩ := released_extract tracks.sound maxSize.toNat
    rw [perform, tracks.buffer_eq, extract_view tracks.sound small, Option.map_some, tracks.extracted_eq]
    split
    next same => rw [same, Option.getD_none, append_nil]
    next more => rw [Option.getD_some, slice_append (Nat.zero_le _) further]

theorem step_to {reached : Window} (tracks : Tracks stream maxBuffer receiver window)
    (small : maxBuffer.toNat + 1 < 2 ^ 31) (guarded : window.Guard stream.finish maxBuffer.toNat action)
    (same : window.perform stream.finish maxBuffer.toNat action = reached) :
    ∃ next, receiver.perform stream action = some next ∧ Tracks stream maxBuffer next reached :=
  same ▸ tracks.step small guarded

end Receiver.Tracks

end Ns3.Internet
