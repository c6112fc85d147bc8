import Ns3.SixLowPan.Cut

/-!
# Putting a datagram together

The receiver holds some of the pieces of a datagram, in the order of their offsets. They are entire
exactly if none is missing, and then they are the packet again.
-/

namespace Ns3.SixLowPan

open List Option Nat Fragments

variable {Octet : Type}

/-- Pieces that lie behind each other between two offsets, none of them empty. -/
def Consecutive (total : Nat) : Nat -> List (List Octet × Nat) -> Prop
  | start, [] => start = total
  | start, it :: rest => it.2 = start ∧ it.1 ≠ [] ∧ Consecutive total (start + it.1.length) rest

/-- The pieces whose offsets are held. -/
def heldOf (held : Nat -> Bool) (pieces : List (List Octet × Nat)) : List (List Octet × Nat) :=
  pieces.filter fun it => held it.2

variable {it : List Octet × Nat}

variable {held : Nat -> Bool}

theorem heldOf_cons_pos (isHeld : held it.2) (pieces : List (List Octet × Nat)) :
    heldOf held (it :: pieces) = it :: heldOf held pieces :=
  filter_cons_of_pos isHeld

theorem heldOf_cons_neg (missing : ¬ held it.2) (pieces : List (List Octet × Nat)) :
    heldOf held (it :: pieces) = heldOf held pieces :=
  filter_cons_of_neg missing

theorem mem_of_heldOf {pieces : List (List Octet × Nat)} (mem : it ∈ heldOf held pieces) : it ∈ pieces :=
  mem_of_mem_filter mem

namespace Consecutive

variable {total start : Nat} {pieces : List (List Octet × Nat)} {held : Nat -> Bool}

theorem start_le (consecutive : Consecutive total start pieces) : start ≤ total := by
  induction pieces generalizing start with
  | nil => exact le_of_eq consecutive
  | cons it rest ih => exact le_trans (le_add_right _ _) (ih consecutive.2.2)

theorem start_lt {it : List Octet × Nat} (consecutive : Consecutive total start (it :: pieces)) : start < total := by
  have pos := length_pos_of_ne_nil consecutive.2.1
  have le := consecutive.2.2.start_le
  omega

theorem offset_le (consecutive : Consecutive total start pieces) : ∀ it ∈ pieces, start ≤ it.2 := by
  induction pieces generalizing start with
  | nil => exact fun _ mem => nomatch mem
  | cons first rest ih =>
    intro it mem
    rcases mem_cons.mp mem with rfl | inRest
    · exact le_of_eq consecutive.1.symm
    · exact le_trans (le_add_right _ _) (ih consecutive.2.2 it inRest)

theorem offset_lt {first : List Octet × Nat} (consecutive : Consecutive total start (first :: pieces)) :
    ∀ it ∈ pieces, first.2 < it.2 := by
  intro it mem
  have pos := length_pos_of_ne_nil consecutive.2.1
  have le := consecutive.2.2.offset_le it mem
  rw [consecutive.1]
  omega

theorem nodup_offsets (consecutive : Consecutive total start pieces) : (pieces.map Prod.snd).Nodup := by
  induction pieces generalizing start with
  | nil => exact nodup_nil
  | cons first rest ih =>
    apply nodup_cons.mpr ⟨fun mem => ?_, ih consecutive.2.2⟩
    obtain ⟨it, inRest, same⟩ := List.mem_map.mp mem
    exact absurd same (ne_of_gt (consecutive.offset_lt it inRest))

theorem addTo_front {fragment : List Octet} {offset : Nat} (behind : ∀ it ∈ pieces, offset < it.2) :
    addTo fragment offset pieces = some ((fragment, offset) :: pieces) := by
  cases pieces with
  | nil => rfl
  | cons it rest => rw [addTo, if_pos (behind it mem_cons_self)]

section

variable (consecutive : Consecutive total start pieces)
include consecutive

theorem addTo_heldOf {piece : List Octet × Nat} (isPiece : piece ∈ pieces) :
    addTo piece.1 piece.2 (heldOf held pieces) =
      some (heldOf (fun offset => held offset || offset = piece.2) pieces) := by
  induction pieces generalizing start with
  | nil => cases isPiece
  | cons first rest ih =>
    have behind := consecutive.offset_lt
    rcases mem_cons.mp isPiece with rfl | inRest
    · have others : heldOf (fun offset => held offset || offset = piece.2) rest = heldOf held rest := by
        apply filter_congr
        intro it mem
        simp [Nat.ne_of_gt (behind it mem)]
      by_cases already : held piece.2
      · rw [heldOf_cons_pos already, heldOf_cons_pos (by simp), others, addTo, if_neg (Nat.lt_irrefl _),
          if_pos rfl, if_pos rfl]
      · rw [heldOf_cons_neg already, heldOf_cons_pos (by simp), others,
          addTo_front fun it mem => behind it (mem_of_heldOf mem)]
    · have less := behind piece inRest
      have later := ih consecutive.2.2 inRest
      by_cases already : held first.2
      · rw [heldOf_cons_pos already, heldOf_cons_pos (by simp [already]), addTo,
          if_neg (Nat.lt_asymm less), if_neg (Nat.ne_of_lt less), later, map_some]
      · rw [heldOf_cons_neg already, heldOf_cons_neg (by simp [already, Nat.ne_of_lt less]), later]

/-- The walk comes to the end exactly if no piece is missing: it stops before the first one that is.
-/
theorem lastEndOffset_heldOf (small : total < 2 ^ 16) :
    lastEndOffset start (heldOf held pieces) = some total ↔ ∀ it ∈ pieces, held it.2 := by
  induction pieces generalizing start with
  | nil => exact iff_of_true (congrArg some consecutive) fun _ mem => nomatch mem
  | cons first rest ih =>
    have less := consecutive.start_lt
    have next := consecutive.2.2.start_le
    by_cases here : held first.2
    · have ends : max start ((first.1.length + first.2) % 2 ^ 16) = start + first.1.length := by
        rw [consecutive.1, Nat.mod_eq_of_lt (by omega)]
        omega
      rw [heldOf_cons_pos here, lastEndOffset, if_neg (by rw [consecutive.1]; exact Nat.lt_irrefl _), ends,
        ih consecutive.2.2, forall_mem_cons]
      exact (and_iff_right here).symm
    · rw [heldOf_cons_neg here]
      apply iff_of_false _ fun all => here (all first mem_cons_self)
      cases isRest : heldOf held rest with
      | nil =>
        intro same
        exact absurd (some.inj same) (Nat.ne_of_lt less)
      | cons it others =>
        have inRest : it ∈ rest := mem_of_heldOf (isRest ▸ mem_cons_self)
        have behind := consecutive.offset_lt it inRest
        rw [consecutive.1] at behind
        rw [lastEndOffset, if_pos behind]
        exact nofun

theorem appendFrom_eq (small : total < 2 ^ 16) (packet : List Octet) :
    appendFrom packet start pieces = some (packet ++ pieces.flatMap Prod.fst) := by
  induction pieces generalizing start packet with
  | nil =>
    rw [flatMap_nil, append_nil]
    rfl
  | cons it rest ih =>
    have next := consecutive.2.2.start_le
    rw [appendFrom, consecutive.1, if_neg (lt_irrefl _), mod_eq_of_lt (by omega),
      ih consecutive.2.2, flatMap_cons, append_assoc]

end

end Consecutive

namespace Datagram

variable {config : ReceiverConfig Octet} {datagram : Datagram Octet} {fragments : List (Fragment Octet)}

/-- A first fragment can be decompressed, and this makes up for the compression of the headers. -/
def Measured (config : ReceiverConfig Octet) (datagram : Datagram Octet) : Prop :=
  ∃ decompressed, config.decompress datagram.src datagram.dst datagram.firstFragment.data = some decompressed ∧
    decompressed.length + datagram.compressedHeaderSize.toNat =
      datagram.firstFragment.data.length + datagram.origHdrSize.toNat

/-- What the receiver keeps of a fragment: how long it is in the original packet, and where. -/
def piece (config : ReceiverConfig Octet) (datagram : Datagram Octet) (fragment : Fragment Octet) : List Octet × Nat :=
  (if fragment.header.isFirst then
    (config.decompress datagram.src datagram.dst fragment.data).getD [] else fragment.data,
    fragment.header.datagramOffset.toNat <<< 3)

theorem piece_later {fragment : Fragment Octet} (later : fragment.header.isFirst = false) :
    datagram.piece config fragment = (fragment.data, fragment.header.datagramOffset.toNat <<< 3) := by
  rw [piece, if_neg (by simp [later])]

/-- All that the receiver relies on. -/
structure Whole (config : ReceiverConfig Octet) (datagram : Datagram Octet) (fragments : List (Fragment Octet)) :
    Prop where
  small : datagram.origPacketSize.toNat < 2 ^ 11
  data : fragments.flatMap Fragment.data = datagram.packet
  headers : ∀ fragment ∈ fragments, fragment.header.datagramSize = datagram.origPacketSize.toUInt16 ∧
    fragment.header.datagramTag = datagram.tag
  head : ∃ first rest, fragments = first :: rest ∧ first.header.isFirst ∧
    (config.decompress datagram.src datagram.dst first.data).isSome ∧ ∀ fragment ∈ rest, fragment.header.isFirst = false
  consecutive : Consecutive datagram.origPacketSize.toNat 0 (fragments.map (datagram.piece config))

/-- The places of later fragments follow each other to the end of the original packet. -/
theorem CoversOnce.consecutive_from (covers : datagram.CoversOnce fragments) (room : datagram.Room)
    {before after : List (Fragment Octet)} (split : fragments = before ++ after) (some : before ≠ [])
    (headers : datagram.compressedHeaderSize.toNat ≤ position before) :
    Consecutive datagram.origPacketSize.toNat (datagram.place before) (after.map (datagram.piece config)) := by
  have notEmpty : ∀ before : List (Fragment Octet), before ≠ [] ->
      datagram.place before = position before + datagram.origHdrSize.toNat - datagram.compressedHeaderSize.toNat :=
    fun _ some => if_neg (by simpa using some)
  induction after generalizing before with
  | nil =>
    have whole := room.compressedHeaderSize_toNat
    rw [append_nil] at split
    change datagram.place before = _
    rw [notEmpty before some, position, ← split, covers.data]
    omega
  | cons fragment after ih =>
    obtain ⟨-, -, isFirst, isPlace⟩ := covers.announced before fragment after split
    have later : fragment.header.isFirst = false := by
      rw [isFirst]
      simpa using some
    have more : position (before ++ [fragment]) = position before + fragment.data.length := by
      simp [position]
    have nextSplit : fragments = (before ++ [fragment]) ++ after := by simp [split]
    have next := ih nextSplit (by simp) (by omega)
    rw [map_cons, piece_later later]
    refine ⟨?_, covers.notEmpty fragment (by simp [split]), ?_⟩
    · rw [shiftLeft_eq]
      omega
    · rw [notEmpty _ (by simp)] at next
      have isNext : datagram.place before + fragment.data.length =
          position before + fragment.data.length + datagram.origHdrSize.toNat -
            datagram.compressedHeaderSize.toNat := by
        rw [notEmpty before some]
        omega
      rw [isNext, ← more]
      exact next

theorem whole_of_announceable (room : datagram.Room) (announceable : datagram.Announceable)
    (measured : datagram.Measured config) :
    ∃ fragments, datagram.doFragmentation (datagram.packet.length + 1) = some fragments ∧
      datagram.Whole config fragments := by
  obtain ⟨fragments, isResult, covers⟩ := (fragmentsWell_iff room).mpr announceable
  obtain ⟨rest, isFirst, -⟩ := doFragmentation_cut room
  have same := (isResult _ (lt_succ_self _)).symm.trans (isFirst _ (lt_succ_self _))
  cases same
  obtain ⟨decompressed, isDecompressed, isLength⟩ := measured
  have length := room.length_firstFragment
  have firstSize := room.firstSize_toNat
  have headers : position [datagram.firstFragment] = datagram.firstSize.toNat := by
    rw [position_cons, length]
    rfl
  have isPlace : datagram.place [datagram.firstFragment] = decompressed.length := by
    rw [place, if_neg (by simp), headers]
    omega
  have next : Consecutive datagram.origPacketSize.toNat (datagram.place [datagram.firstFragment])
      (rest.map (datagram.piece config)) := covers.consecutive_from room rfl (by simp) (by omega)
  have isPiece : datagram.piece config datagram.firstFragment = (decompressed, 0) := by
    change ((config.decompress _ _ _).getD [], 0) = _
    rw [isDecompressed, getD_some]
  refine ⟨_, isResult _ (lt_succ_self _), announceable.1, covers.data, ?_, ?_, ?_⟩
  · intro fragment mem
    obtain ⟨before, after, split⟩ := append_of_mem mem
    obtain ⟨isSize, isTag, -⟩ := covers.announced before fragment after split
    refine ⟨?_, isTag⟩
    apply UInt16.toNat_inj.mp
    rw [isSize, UInt32.toNat_toUInt16]
    exact (mod_eq_of_lt (lt_trans announceable.1 (by decide))).symm
  · refine ⟨_, rest, rfl, rfl, ?_, ?_⟩
    · rw [isDecompressed]
      rfl
    · intro fragment mem
      obtain ⟨before, after, split⟩ := append_of_mem mem
      obtain ⟨-, -, isLater, -⟩ := covers.announced (datagram.firstFragment :: before) fragment after (by simp [split])
      exact isLater
  · rw [map_cons, isPiece]
    refine ⟨rfl, ?_, ?_⟩
    · apply ne_nil_of_length_pos
      change 0 < decompressed.length
      have first := room.first
      omega
    · rw [zero_add, ← isPlace]
      exact next

/-- Where fragments start, in octets. -/
def offsets (arrived : List (Fragment Octet)) (offset : Nat) : Bool :=
  arrived.any fun fragment => fragment.header.datagramOffset.toNat <<< 3 = offset

/-- The entry of a datagram of which some fragments have come. -/
structure Pending (config : ReceiverConfig Octet) (datagram : Datagram Octet)
    (fragments arrived : List (Fragment Octet))
    (entry : Fragments Octet) : Prop where
  ofDatagram : arrived ⊆ fragments
  packetSize : entry.packetSize = datagram.origPacketSize.toNat
  held : entry.fragments = heldOf (offsets arrived) (fragments.map (datagram.piece config))
  firstFragment : ∀ first ∈ arrived, first.header.isFirst -> entry.firstFragment = some first.data

namespace Whole

variable (whole : datagram.Whole config fragments) {arrived : List (Fragment Octet)} {entry : Fragments Octet}
include whole

theorem eq_of_offset {fragment other : Fragment Octet} (isFragment : fragment ∈ fragments) (isOther : other ∈ fragments)
    (same : fragment.header.datagramOffset.toNat <<< 3 = other.header.datagramOffset.toNat <<< 3) :
    fragment = other := by
  have nodup := whole.consecutive.nodup_offsets
  rw [List.map_map] at nodup
  exact inj_on_of_nodup_map nodup isFragment isOther same

/-- Nothing is missing exactly if all fragments have come. -/
theorem all_held (ofDatagram : arrived ⊆ fragments) :
    (∀ it ∈ fragments.map (datagram.piece config), offsets arrived it.2) ↔
      ∀ fragment ∈ fragments, fragment ∈ arrived := by
  rw [List.forall_mem_map]
  apply forall₂_congr
  intro fragment isFragment
  rw [offsets, List.any_eq_true]
  constructor
  · rintro ⟨other, hasArrived, same⟩
    rw [← whole.eq_of_offset (ofDatagram hasArrived) isFragment (of_decide_eq_true same)]
    exact hasArrived
  · exact fun hasArrived => ⟨fragment, hasArrived, decide_eq_true rfl⟩

theorem isEntire_iff (pending : datagram.Pending config fragments arrived entry) :
    entry.isEntire ↔ ∀ fragment ∈ fragments, fragment ∈ arrived := by
  have small : datagram.origPacketSize.toNat < 2 ^ 16 := lt_trans whole.small (by decide)
  have walk := @Consecutive.lastEndOffset_heldOf _ _ _ _ (offsets arrived) whole.consecutive small
  rw [whole.all_held pending.ofDatagram] at walk
  rw [isEntire, pending.held, pending.packetSize, ← walk, Bool.and_eq_true, decide_eq_true_iff]
  apply and_iff_right_of_imp
  intro ends
  have all := (whole.all_held pending.ofDatagram).mpr (walk.mp ends)
  obtain ⟨first, rest, rfl, -⟩ := whole.head
  rw [map_cons, heldOf_cons_pos (all _ mem_cons_self)]
  rfl

theorem getPacket_eq (pending : datagram.Pending config fragments arrived entry)
    (all : ∀ fragment ∈ fragments, fragment ∈ arrived) : entry.getPacket = some datagram.packet := by
  have small : datagram.origPacketSize.toNat < 2 ^ 16 := lt_trans whole.small (by decide)
  have held : entry.fragments = fragments.map (datagram.piece config) := by
    rw [pending.held]
    exact filter_eq_self.mpr ((whole.all_held pending.ofDatagram).mpr all)
  have data := whole.data
  have consecutive := whole.consecutive
  obtain ⟨first, rest, rfl, isFirst, -, later⟩ := whole.head
  have pieces : (rest.map (datagram.piece config)).flatMap Prod.fst = rest.flatMap Fragment.data := by
    rw [flatMap_map]
    apply flatMap_congr
    intro fragment mem
    rw [piece_later (later fragment mem)]
  obtain ⟨-, -, next⟩ := consecutive
  have within := next.start_le
  rw [zero_add] at next within
  rw [getPacket, pending.firstFragment first (all first mem_cons_self) isFirst, bind_some, held, map_cons]
  change appendFrom first.data ((datagram.piece config first).1.length % 2 ^ 16) _ = _
  rw [mod_eq_of_lt (by omega), next.appendFrom_eq small, pieces, ← flatMap_cons, data]

theorem isFirst_unique {first other : Fragment Octet} (isFragment : first ∈ fragments) (isOther : other ∈ fragments)
    (isFirst : first.header.isFirst) (otherFirst : other.header.isFirst) : first = other := by
  obtain ⟨head, rest, rfl, -, -, later⟩ := whole.head
  have isHead : ∀ fragment ∈ head :: rest, fragment.header.isFirst -> fragment = head := by
    intro fragment mem first
    rcases mem_cons.mp mem with same | inRest
    · exact same
    · exact absurd first (by simp [later fragment inRest])
  exact (isHead first isFragment isFirst).trans (isHead other isOther otherFirst).symm

theorem add (pending : datagram.Pending config fragments arrived entry) {fragment : Fragment Octet}
    (isFragment : fragment ∈ fragments) :
    ∃ added, entry.add (datagram.piece config fragment).1 (datagram.piece config fragment).2
        (if fragment.header.isFirst then some fragment.data else none) = some added ∧
      added.timeoutIter = entry.timeoutIter ∧ datagram.Pending config fragments (fragment :: arrived) added := by
  have added : Fragments.addTo (datagram.piece config fragment).1 (datagram.piece config fragment).2 entry.fragments =
      some (heldOf (offsets (fragment :: arrived)) (fragments.map (datagram.piece config))) := by
    rw [pending.held, whole.consecutive.addTo_heldOf (List.mem_map_of_mem isFragment)]
    congr 2
    ext offset
    rw [offsets, offsets, any_cons, Bool.or_comm]
    congr 1
    exact decide_eq_decide.mpr eq_comm
  rw [Fragments.add, added, map_some]
  refine ⟨_, rfl, rfl, cons_subset.mpr ⟨isFragment, pending.ofDatagram⟩, pending.packetSize, ?_, ?_⟩
  · rfl
  · intro first mem isFirst
    change (if (if fragment.header.isFirst then some fragment.data else none).isSome then _ else _) = _
    rcases mem_cons.mp mem with rfl | hasArrived
    · rw [if_pos isFirst]
      rfl
    · by_cases again : fragment.header.isFirst
      · rw [if_pos again, whole.isFirst_unique (pending.ofDatagram hasArrived) isFragment isFirst again]
        rfl
      · rw [if_neg again]
        exact pending.firstFragment first hasArrived isFirst

end Whole
end Datagram
end Ns3.SixLowPan
