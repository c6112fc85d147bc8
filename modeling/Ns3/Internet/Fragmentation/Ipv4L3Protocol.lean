import Ns3.Internet.Fragmentation.Ipv4Reassembly
import Ns3.Network.Ipv4Address

/-!
# Fragmentation and reassembly of IPv4 datagrams

`DoFragmentation` cuts a datagram or a fragment for an MTU, and `ProcessFragment` gathers the
fragments. The pieces of any number of hops complete a datagram, and the first arrival that does
gives back the payload exactly if the fragment that came last among the furthest ones is a last one:
`reassembles_iff`.
-/

namespace Ns3.Internet

open Ns3.Network Fragments List Nat

/-- What fragmentation and reassembly use of a header, which has no options. -/
structure Ipv4Header where
  source : Ipv4Address
  destination : Ipv4Address
  identification : UInt16
  protocol : UInt8
  payloadSize : Nat
  fragmentOffset : Nat
  moreFragments : Bool
  deriving DecidableEq

/-- `GetSerializedSize`. -/
def Ipv4Header.serializedSize : Nat := 5 * 4

/-- What is sent: a payload and its header. -/
abbrev Ipv4Piece (Octet : Type) :=
  List Octet × Ipv4Header

namespace Ipv4L3Protocol

variable {Octet : Type}

/-- The multiple of 8 that fits. -/
def fragmentSize (outIfaceMtu : Nat) : Nat :=
  (outIfaceMtu - Ipv4Header.serializedSize) / 8 * 8

/-- A fragment of a packet. A fragment outside the packet fails an assertion, and an offset that is
not a multiple of 8 aborts. -/
def fragmentAt (p : List Octet) (header : Ipv4Header) (offset size : Nat) (moreFragments : Bool) :
    Option (Ipv4Piece Octet) :=
  let fragmentOffset := (offset + header.fragmentOffset) % 2 ^ 16
  if offset + size ≤ p.length ∧ fragmentOffset % 8 = 0 then
    some ((p.drop offset).take size, { header with
        payloadSize := size % 2 ^ 16
        fragmentOffset := fragmentOffset
        moreFragments := moreFragments })
  else none

/-- The loop, for some rounds at most. -/
def fragmentLoop (p : List Octet) (header : Ipv4Header) (fragmentSize : Nat) : Nat -> Nat ->
    Option (List (Ipv4Piece Octet))
  | 0, _ => none
  | rounds + 1, offset =>
    if p.length > offset + fragmentSize then
      (fragmentAt p header offset fragmentSize true).bind fun fragment =>
        (fragmentLoop p header fragmentSize rounds ((offset + fragmentSize) % 2 ^ 16)).map (fragment :: ·)
    else
      (fragmentAt p header offset (p.length - offset) header.moreFragments).map ([·])

/-- Each round but the last one takes some octets. -/
def doFragmentation (piece : Ipv4Piece Octet) (outIfaceMtu : Nat) : Option (List (Ipv4Piece Octet)) :=
  fragmentLoop piece.1 piece.2 (fragmentSize outIfaceMtu) (piece.1.length + 1) 0

abbrev FragmentKey :=
  Nat × Nat

/-- The address combination, and the identification with the protocol. -/
def fragmentKey (header : Ipv4Header) : FragmentKey :=
  (header.source.bits.toNat <<< 32 ||| header.destination.bits.toNat,
    header.identification.toNat <<< 16 ||| header.protocol.toNat)

/-- A piece as a fragment. -/
def toFragment (piece : Ipv4Piece Octet) : Fragment Octet where
  data := piece.1
  offset := piece.2.fragmentOffset
  moreFragment := piece.2.moreFragments

/-- The fragments of each datagram. -/
abbrev FragmentsMap (Octet : Type) :=
  FragmentKey -> Option (Fragments Octet)

/-- Returns the packet once it is complete. -/
def processFragment (fragments : FragmentsMap Octet) (piece : Ipv4Piece Octet) :
    FragmentsMap Octet × Option (List Octet) :=
  let key := fragmentKey piece.2
  let gathered := ((fragments key).getD new).addFragment (toFragment piece)
  if gathered.isEntire then (Function.update fragments key none, some gathered.getPacket)
  else (Function.update fragments key (some gathered), none)

/-- The fragments after some arrivals. -/
def fragmentsAfter (arrivals : List (Ipv4Piece Octet)) : FragmentsMap Octet :=
  arrivals.foldl (fun fragments piece => (processFragment fragments piece).1) fun _ => none

/-- What an arrival gives back, after some others. -/
def answer (earlier : List (Ipv4Piece Octet)) (piece : Ipv4Piece Octet) : Option (List Octet) :=
  (processFragment (fragmentsAfter earlier) piece).2

section

variable {payload : List Octet} {header : Ipv4Header} {piece : Ipv4Piece Octet} {size offset : Nat}

/-- What a piece of a payload carries under which header. -/
structure PieceOf (payload : List Octet) (header : Ipv4Header) (piece : Ipv4Piece Octet) : Prop where
  part : PartOf payload (toFragment piece)
  aligned : piece.2.fragmentOffset % 8 = 0
  key : fragmentKey piece.2 = fragmentKey header

theorem PieceOf.slice (isPiece : PieceOf payload header piece) (within : offset + size ≤ piece.1.length) :
    (piece.1.drop offset).take size = (payload.drop (offset + piece.2.fragmentOffset)).take size := by
  have data : piece.1 = (payload.drop piece.2.fragmentOffset).take piece.1.length := isPiece.part.data
  conv_lhs => rw [data]
  rw [drop_take, drop_drop, take_take, min_eq_left (by omega), add_comm offset]

theorem fragmentAt_pieceOf (small : payload.length < 2 ^ 16) (isPiece : PieceOf payload header piece)
    (within : offset + size ≤ piece.1.length) (aligned : offset % 8 = 0) {moreFragments : Bool}
    (last : moreFragments = false ↔ piece.2.moreFragments = false ∧ offset + size = piece.1.length) :
    ∃ out, fragmentAt piece.1 piece.2 offset size moreFragments = some out ∧ PieceOf payload header out ∧
      out.1.length = size ∧ out.2.fragmentOffset = piece.2.fragmentOffset + offset ∧
      out.2.moreFragments = moreFragments := by
  have inside : piece.2.fragmentOffset + piece.1.length ≤ payload.length := isPiece.part.within
  have ends : piece.2.moreFragments = false ↔ piece.2.fragmentOffset + piece.1.length = payload.length :=
    isPiece.part.last
  have unwrapped : (offset + piece.2.fragmentOffset) % 2 ^ 16 = offset + piece.2.fragmentOffset :=
    mod_eq_of_lt (by omega)
  have multiple : (offset + piece.2.fragmentOffset) % 8 = 0 := by
    have base := isPiece.aligned
    omega
  have length : ((piece.1.drop offset).take size).length = size := by
    rw [length_take, length_drop]
    omega
  refine ⟨((piece.1.drop offset).take size,
      { piece.2 with
        payloadSize := size % 2 ^ 16
        fragmentOffset := offset + piece.2.fragmentOffset
        moreFragments := moreFragments }), ?_, ⟨⟨?_, ?_, ?_⟩, multiple, isPiece.key⟩, length,
    add_comm _ _, rfl⟩
  · rw [fragmentAt, unwrapped, if_pos ⟨within, multiple⟩]
  · simp only [toFragment, length]
    omega
  · simp only [toFragment, length]
    exact isPiece.slice within
  · simp only [toFragment, length]
    rw [last, ends]
    omega

/-- The pieces that a piece is cut into, from an offset on. -/
structure CutFrom (payload : List Octet) (header : Ipv4Header) (piece : Ipv4Piece Octet) (offset : Nat)
    (pieces : List (Ipv4Piece Octet)) : Prop where
  isPiece : ∀ out ∈ pieces, PieceOf payload header out
  covers : ∀ position, offset ≤ position -> position < piece.1.length ->
    ∃ out ∈ pieces, Covers (toFragment out) (piece.2.fragmentOffset + position)
  last : piece.2.moreFragments = false -> ∃ out ∈ pieces, out.2.moreFragments = false

theorem fragmentLoop_cutFrom (small : payload.length < 2 ^ 16) (isPiece : PieceOf payload header piece)
    (pos : 0 < size) (multiple : size % 8 = 0) (rounds : Nat) (within : offset ≤ piece.1.length)
    (aligned : offset % 8 = 0) (enough : piece.1.length - offset < rounds) :
    ∃ pieces, fragmentLoop piece.1 piece.2 size rounds offset = some pieces ∧
      CutFrom payload header piece offset pieces := by
  have inside : piece.2.fragmentOffset + piece.1.length ≤ payload.length := isPiece.part.within
  induction rounds generalizing offset with
  | zero => exact absurd enough (not_lt_zero _)
  | succ rounds ih =>
    rw [fragmentLoop]
    by_cases more : piece.1.length > offset + size
    · obtain ⟨first, isFirst, firstPiece, length, start, flag⟩ :=
        @fragmentAt_pieceOf _ _ _ _ size offset small isPiece (by omega) aligned true (by
          constructor
          · exact fun absurd => by cases absurd
          · exact fun ends => by omega)
      have unwrapped : (offset + size) % 2 ^ 16 = offset + size := mod_eq_of_lt (by omega)
      obtain ⟨rest, isRest, cut⟩ := @ih (offset + size) (by omega) (by omega) (by omega)
      refine ⟨first :: rest, by rw [if_pos more, isFirst, unwrapped, isRest]; rfl, ?_, ?_, ?_⟩
      · rintro out (_ | ⟨_, later⟩)
        · exact firstPiece
        · exact cut.isPiece out later
      · intro position behind bound
        by_cases inFirst : position < offset + size
        · refine ⟨first, mem_cons_self, ?_, ?_⟩
          · simp only [toFragment, start]
            omega
          · simp only [toFragment, start, length]
            omega
        · obtain ⟨out, mem, isCovered⟩ := cut.covers position (by omega) bound
          exact ⟨out, mem_cons_of_mem _ mem, isCovered⟩
      · intro isLast
        obtain ⟨out, mem, ends⟩ := cut.last isLast
        exact ⟨out, mem_cons_of_mem _ mem, ends⟩
    · obtain ⟨only, isOnly, onlyPiece, length, start, flag⟩ :=
        @fragmentAt_pieceOf _ _ _ _ (piece.1.length - offset) offset small isPiece (by omega) aligned
          piece.2.moreFragments (by
            constructor
            · exact fun isLast => ⟨isLast, by omega⟩
            · exact fun ends => ends.1)
      refine ⟨[only], by rw [if_neg more, isOnly]; rfl, ?_, ?_, ?_⟩
      · rintro out (_ | ⟨_, none⟩)
        · exact onlyPiece
        · cases none
      · intro position behind bound
        refine ⟨only, mem_cons_self, ?_, ?_⟩
        · simp only [toFragment, start]
          omega
        · simp only [toFragment, start, length]
          omega
      · intro isLast
        exact ⟨only, mem_cons_self, flag.trans isLast⟩

/-- With an MTU of at least 68 a piece is cut into pieces. -/
theorem doFragmentation_cutFrom (small : payload.length < 2 ^ 16) (isPiece : PieceOf payload header piece)
    {outIfaceMtu : Nat} (mtu : 68 ≤ outIfaceMtu) :
    ∃ pieces, doFragmentation piece outIfaceMtu = some pieces ∧ CutFrom payload header piece 0 pieces := by
  have pos : 0 < fragmentSize outIfaceMtu := by
    rw [fragmentSize, Ipv4Header.serializedSize]
    omega
  have multiple : fragmentSize outIfaceMtu % 8 = 0 := mul_mod_left _ _
  apply fragmentLoop_cutFrom small isPiece pos multiple
  · exact zero_le _
  · rfl
  · omega

end

/-- A datagram before any fragmentation. -/
structure Datagram (Octet : Type) where
  payload : List Octet
  header : Ipv4Header
  small : payload.length ≤ 65515
  first : header.fragmentOffset = 0
  last : header.moreFragments = false

/-- The pieces a datagram is cut into, at hops that each cut one piece. -/
inductive Datagram.Pieces (datagram : Datagram Octet) : List (Ipv4Piece Octet) -> Prop where
  | whole : datagram.Pieces [(datagram.payload, datagram.header)]
  | hop {before piece after pieces outIfaceMtu} (prior : datagram.Pieces (before ++ piece :: after))
      (mtu : 68 ≤ outIfaceMtu) (cut : doFragmentation piece outIfaceMtu = some pieces) :
      datagram.Pieces (before ++ pieces ++ after)

theorem Datagram.short (datagram : Datagram Octet) : datagram.payload.length < 2 ^ 16 :=
  lt_of_le_of_lt datagram.small (by decide)

/-- However a datagram is cut, the pieces are its own and complete it. -/
theorem Datagram.Pieces.complete {datagram : Datagram Octet} {pieces : List (Ipv4Piece Octet)}
    (isCut : datagram.Pieces pieces) :
    (∀ piece ∈ pieces, PieceOf datagram.payload datagram.header piece) ∧
      Complete datagram.payload (pieces.map toFragment) := by
  induction isCut with
  | whole =>
    constructor
    · intro piece mem
      rw [mem_singleton.mp mem]
      refine ⟨⟨?_, ?_, ?_⟩, ?_, rfl⟩
      · simp [toFragment, datagram.first]
      · simp [toFragment, datagram.first]
      · simp [toFragment, datagram.first, datagram.last]
      · simp [datagram.first]
    · refine ⟨fun position bound => ⟨_, mem_singleton.mpr rfl, ?_, ?_⟩, _, mem_singleton.mpr rfl,
        datagram.last⟩
      · simp [toFragment, datagram.first]
      · simpa [toFragment, datagram.first] using bound
  | @hop before piece after pieces outIfaceMtu prior mtu cut ih =>
    obtain ⟨isPiece, complete⟩ := ih
    have its := isPiece piece (mem_append_right _ mem_cons_self)
    obtain ⟨cutPieces, isCut, cutFrom⟩ := doFragmentation_cutFrom datagram.short its mtu
    obtain rfl : cutPieces = pieces := Option.some.inj (isCut.symm.trans cut)
    -- A piece that is not cut stays, and one that is cut is covered by what it is cut into.
    have stays : ∀ other, other ∈ before ++ piece :: after -> other ≠ piece ->
      other ∈ before ++ cutPieces ++ after := by
      intro other mem ne
      simp only [mem_append, mem_cons] at mem ⊢
      rcases mem with inFront | same | behind
      · exact .inl (.inl inFront)
      · exact absurd same ne
      · exact .inr behind
    have within : ∀ out ∈ cutPieces, out ∈ before ++ cutPieces ++ after := fun out mem =>
      mem_append_left _ (mem_append_right _ mem)
    refine ⟨fun out mem => ?_, fun position bound => ?_, ?_⟩
    · simp only [mem_append] at mem
      rcases mem with (inFront | new) | behind
      · exact isPiece out (mem_append_left _ inFront)
      · exact cutFrom.isPiece out new
      · exact isPiece out (mem_append_right _ (mem_cons_of_mem _ behind))
    · obtain ⟨fragment, mem, covers⟩ := complete.1 position bound
      obtain ⟨other, isOther, rfl⟩ := mem_map.mp mem
      by_cases same : other = piece
      · subst same
        have starts : other.2.fragmentOffset ≤ position := covers.1
        have ends : position < other.2.fragmentOffset + other.1.length := covers.2
        obtain ⟨out, isOut, isCovered⟩ := cutFrom.covers (position - other.2.fragmentOffset) (Nat.zero_le _)
          (by omega)
        rw [Nat.add_sub_cancel' starts] at isCovered
        exact ⟨_, mem_map_of_mem (within out isOut), isCovered⟩
      · exact ⟨_, mem_map_of_mem (stays other isOther same), covers⟩
    · obtain ⟨fragment, mem, isLast⟩ := complete.2
      obtain ⟨other, isOther, rfl⟩ := mem_map.mp mem
      by_cases same : other = piece
      · subst same
        obtain ⟨out, isOut, ends⟩ := cutFrom.last isLast
        exact ⟨_, mem_map_of_mem (within out isOut), ends⟩
      · exact ⟨_, mem_map_of_mem (stays other isOther same), isLast⟩

section

variable {header : Ipv4Header} {payload : List Octet} {earlier : List (Ipv4Piece Octet)} {piece : Ipv4Piece Octet}

/-- The fragments of one datagram among the arrivals. -/
def ofDatagram (header : Ipv4Header) (arrivals : List (Ipv4Piece Octet)) : List (Fragment Octet) :=
  (arrivals.filter fun piece => fragmentKey piece.2 = fragmentKey header).map toFragment

theorem ofDatagram_append (first second : List (Ipv4Piece Octet)) :
    ofDatagram header (first ++ second) = ofDatagram header first ++ ofDatagram header second := by
  rw [ofDatagram, filter_append, map_append]
  rfl

theorem ofDatagram_singleton (its : fragmentKey piece.2 = fragmentKey header) :
    ofDatagram header [piece] = [toFragment piece] := by
  simp [ofDatagram, its]

theorem ofDatagram_singleton_of_ne (other : fragmentKey piece.2 ≠ fragmentKey header) :
    ofDatagram header [piece] = [] := by
  simp [ofDatagram, other]

theorem fragmentsAfter_append :
    fragmentsAfter (earlier ++ [piece]) = (processFragment (fragmentsAfter earlier) piece).1 := by
  rw [fragmentsAfter, foldl_append]
  rfl

theorem processFragment_of_ne {fragments : FragmentsMap Octet} (other : fragmentKey piece.2 ≠ fragmentKey header) :
    (processFragment fragments piece).1 (fragmentKey header) = fragments (fragmentKey header) := by
  have ne : fragmentKey header ≠ fragmentKey piece.2 := Ne.symm other
  unfold processFragment
  dsimp only
  split
  · simp only [Function.update_of_ne ne]
  · simp only [Function.update_of_ne ne]

/-- Until they are entire, the fragments of a datagram are gathered, whatever else arrives. -/
theorem fragmentsAfter_getD
    (unfinished : ∀ arrived, arrived <+: earlier -> (gather (ofDatagram header arrived)).isEntire = false) :
    (fragmentsAfter earlier (fragmentKey header)).getD new = gather (ofDatagram header earlier) := by
  induction earlier using reverseRecOn with
  | nil => rfl
  | append_singleton earlier piece ih =>
    have before := ih fun arrived isPrefix =>
      unfinished arrived (isPrefix.trans (prefix_append _ _))
    have now := unfinished _ (prefix_refl _)
    rw [fragmentsAfter_append, ofDatagram_append]
    by_cases its : fragmentKey piece.2 = fragmentKey header
    · rw [ofDatagram_append, ofDatagram_singleton its, gather_append, ← before] at now
      rw [processFragment, its, if_neg (by simpa using now), ofDatagram_singleton its, gather_append, ← before]
      simp
    · rw [processFragment_of_ne its, ofDatagram_singleton_of_ne its, append_nil, ← before]

/-- An arrival gives back a packet exactly if it makes the fragments entire. -/
theorem answer_eq (its : fragmentKey piece.2 = fragmentKey header)
    (unfinished : ∀ arrived, arrived <+: earlier -> (gather (ofDatagram header arrived)).isEntire = false) :
    answer earlier piece =
      if (gather (ofDatagram header (earlier ++ [piece]))).isEntire
      then some (gather (ofDatagram header (earlier ++ [piece]))).getPacket else none := by
  rw [answer, processFragment, its, fragmentsAfter_getD unfinished, ofDatagram_append, ofDatagram_singleton its,
    gather_append]
  split
  · rfl
  · rfl

/-- The arrival that completes a datagram. -/
structure Completes (datagram : Datagram Octet) (earlier : List (Ipv4Piece Octet)) (last : Ipv4Piece Octet) : Prop where
  incomplete : ¬ Complete datagram.payload (ofDatagram datagram.header earlier)
  complete : Complete datagram.payload (ofDatagram datagram.header (earlier ++ [last]))

/-- That arrival gives back the payload, and no earlier one of the datagram gives back a packet. -/
structure Reassembles (datagram : Datagram Octet) (earlier : List (Ipv4Piece Octet))
    (last : Ipv4Piece Octet) : Prop where
  notBefore : ∀ before piece, before ++ [piece] <+: earlier ->
    fragmentKey piece.2 = fragmentKey datagram.header -> answer before piece = none
  packet : answer earlier last = some datagram.payload

theorem exists_completes {datagram : Datagram Octet} {arrivals : List (Ipv4Piece Octet)}
    (complete : Complete datagram.payload (ofDatagram datagram.header arrivals)) :
    ∃ earlier last later, arrivals = earlier ++ last :: later ∧ Completes datagram earlier last := by
  induction arrivals using reverseRecOn with
  | nil => exact absurd rfl complete.ne_nil
  | append_singleton arrivals final ih =>
    by_cases before : Complete datagram.payload (ofDatagram datagram.header arrivals)
    · obtain ⟨earlier, last, later, rfl, completes⟩ := ih before
      exact ⟨earlier, last, later ++ [final], by simp, completes⟩
    · exact ⟨arrivals, final, [], rfl, before, complete⟩

theorem Completes.its {datagram : Datagram Octet} {last : Ipv4Piece Octet}
    (completes : Completes datagram earlier last) : fragmentKey last.2 = fragmentKey datagram.header := by
  apply Decidable.byContradiction
  intro other
  have complete := completes.complete
  rw [ofDatagram_append, ofDatagram_singleton_of_ne other, append_nil] at complete
  exact completes.incomplete complete

/-- Whatever arrives in between, once all pieces of some fragmentation of a datagram have arrived,
one arrival is the first to complete it; and then that one, and none before it, gives back the
payload exactly if the fragment that came last among the furthest ones is a last one. -/
theorem reassembles_iff (datagram : Datagram Octet) (arrivals : List (Ipv4Piece Octet))
    (own : ∀ piece ∈ arrivals, fragmentKey piece.2 = fragmentKey datagram.header ->
      ∃ pieces, datagram.Pieces pieces ∧ piece ∈ pieces)
    (all : ∃ pieces, datagram.Pieces pieces ∧ ∀ piece ∈ pieces, piece ∈ arrivals) :
    ∃ earlier last later, arrivals = earlier ++ last :: later ∧ Completes datagram earlier last ∧
      (Reassembles datagram earlier last ↔ LastDecides (ofDatagram datagram.header (earlier ++ [last]))) := by
  have isPart : ∀ arrived : List (Ipv4Piece Octet), arrived ⊆ arrivals ->
      ∀ fragment ∈ ofDatagram datagram.header arrived, PartOf datagram.payload fragment := by
    intro arrived subset fragment member
    obtain ⟨piece, isOwn, rfl⟩ := List.mem_map.mp member
    obtain ⟨hasArrived, its⟩ := mem_filter.mp isOwn
    obtain ⟨pieces, isCut, isPiece⟩ := own piece (subset hasArrived) (of_decide_eq_true its)
    exact (isCut.complete.1 piece isPiece).part
  have complete : Complete datagram.payload (ofDatagram datagram.header arrivals) := by
    obtain ⟨pieces, isCut, arrive⟩ := all
    obtain ⟨isPiece, complete⟩ := isCut.complete
    apply complete.mono
    intro fragment member
    obtain ⟨piece, isOut, rfl⟩ := List.mem_map.mp member
    exact List.mem_map_of_mem (mem_filter.mpr ⟨arrive piece isOut, decide_eq_true (isPiece piece isOut).key⟩)
  obtain ⟨earlier, last, later, rfl, completes⟩ := exists_completes complete
  refine ⟨earlier, last, later, rfl, completes, ?_⟩
  -- No part of what arrived earlier is complete, so none is entire.
  have unfinished : ∀ arrived, arrived <+: earlier ->
      (gather (ofDatagram datagram.header arrived)).isEntire = false := by
    intro arrived isPrefix
    have subset : arrived ⊆ earlier ++ last :: later := fun piece member =>
      mem_append_left _ (isPrefix.subset member)
    apply Bool.eq_false_iff.mpr
    intro entire
    apply completes.incomplete
    apply ((isEntire_gather datagram.short (isPart arrived subset)).mp entire).1.mono
    obtain ⟨rest, rfl⟩ := isPrefix
    rw [ofDatagram_append]
    exact subset_append_left _ _
  have subset : earlier ++ [last] ⊆ earlier ++ last :: later := by
    intro piece member
    rcases mem_append.mp member with before | now
    · exact mem_append_left _ before
    · rw [mem_singleton.mp now]
      exact mem_append_right _ mem_cons_self
  have entire := isEntire_gather datagram.short (isPart _ subset)
  have answered := answer_eq completes.its unfinished
  constructor
  · intro reassembles
    have packet := reassembles.packet
    rw [answered] at packet
    split at packet
    next isEntire => exact (entire.mp isEntire).2
    · cases packet
  · intro decides
    have isEntire := entire.mpr ⟨completes.complete, decides⟩
    refine ⟨fun before piece isPrefix its => ?_, ?_⟩
    · rw [answer_eq its fun arrived inBefore =>
        unfinished arrived (inBefore.trans ((prefix_append _ _).trans isPrefix)),
        unfinished _ isPrefix]
      rfl
    · rw [answered, if_pos isEntire, getPacket_gather datagram.short (isPart _ subset) isEntire]

end

def sampleHeader : Ipv4Header where
  source := ⟨0x0a000001⟩
  destination := ⟨0x0a000002⟩
  identification := 1
  protocol := 17
  payloadSize := 140
  fragmentOffset := 0
  moreFragments := false

/-- A datagram of 140 octets. -/
def sample : Datagram Unit where
  payload := replicate 140 ()
  header := sampleHeader
  small := by simp
  first := rfl
  last := rfl

def samplePiece (offset size : Nat) (moreFragments : Bool) : Ipv4Piece Unit :=
  (replicate size (),
    { sampleHeader with payloadSize := size, fragmentOffset := offset, moreFragments := moreFragments })

theorem sample_pieces : sample.Pieces [samplePiece 0 80 true, samplePiece 80 60 false] :=
  @Datagram.Pieces.hop _ sample [] _ [] [samplePiece 0 80 true, samplePiece 80 60 false] 100 .whole (by decide)
    (by decide +kernel)

theorem sample_reassembles_iff :
    ∃ earlier last later, [samplePiece 80 60 false, samplePiece 0 80 true] = earlier ++ last :: later ∧
      Completes sample earlier last ∧
      (Reassembles sample earlier last ↔ LastDecides (ofDatagram sample.header (earlier ++ [last]))) :=
  reassembles_iff sample [samplePiece 80 60 false, samplePiece 0 80 true]
    (fun _ member _ => ⟨_, sample_pieces, (List.Perm.swap _ _ _).mem_iff.mp member⟩)
    ⟨_, sample_pieces, fun _ member => (List.Perm.swap _ _ _).mem_iff.mp member⟩

/-- The second piece, then the front of it that was cut off at a further hop, and then the first:
the datagram is complete, but not given back. -/
theorem refragmented_not_reassembled :
    Completes sample [samplePiece 80 60 false, samplePiece 80 48 true] (samplePiece 0 80 true) ∧
      answer [samplePiece 80 60 false, samplePiece 80 48 true] (samplePiece 0 80 true) = none ∧
      ¬ Reassembles sample [samplePiece 80 60 false, samplePiece 80 48 true] (samplePiece 0 80 true) := by
  have none : answer [samplePiece 80 60 false, samplePiece 80 48 true] (samplePiece 0 80 true) = none := by
    decide +kernel
  have fragments : ofDatagram sample.header [samplePiece 80 60 false, samplePiece 80 48 true, samplePiece 0 80 true] =
      [⟨replicate 60 (), 80, false⟩, ⟨replicate 48 (), 80, true⟩, ⟨replicate 80 (), 0, true⟩] := by
    decide +kernel
  refine ⟨⟨?_, ?_⟩, none, fun reassembles => ?_⟩
  · intro complete
    have earlier : ofDatagram sample.header [samplePiece 80 60 false, samplePiece 80 48 true] =
        [⟨replicate 60 (), 80, false⟩, ⟨replicate 48 (), 80, true⟩] := by
      decide +kernel
    rw [earlier] at complete
    obtain ⟨fragment, member, starts, -⟩ := complete.1 0 (by simp [sample])
    simp only [mem_cons, not_mem_nil, or_false] at member
    rcases member with rfl | rfl
    · cases starts
    · cases starts
  · refine ⟨fun position bound => ?_, ?_⟩
    · simp only [cons_append, nil_append, fragments]
      have bound' : position < 140 := by simpa [sample] using bound
      by_cases front : position < 80
      · exact ⟨⟨replicate 80 (), 0, true⟩, by simp, Nat.zero_le _, by simpa using front⟩
      · refine ⟨⟨replicate 60 (), 80, false⟩, by simp, Nat.le_of_not_gt front, ?_⟩
        simpa using bound'
    · simp only [cons_append, nil_append, fragments]
      exact ⟨⟨replicate 60 (), 80, false⟩, by simp, rfl⟩
  · have packet := reassembles.packet
    cases packet

end Ipv4L3Protocol

end Ns3.Internet
