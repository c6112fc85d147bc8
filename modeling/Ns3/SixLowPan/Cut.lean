import Ns3.SixLowPan.Fragmentation

/-!
# What a packet is cut into

The fragments fit and cover the packet whatever its size. What they announce is right exactly if the
size has eleven bits and the size of the original headers is a multiple of eight.
-/

namespace Ns3.SixLowPan.Datagram

open List Option UInt32 Nat

variable {Octet : Type} {datagram : Datagram Octet} {fragments : List (Fragment Octet)}

/-- What the callers provide: sizes that belong to a packet that is too long for the device, and the
room for its headers and eight octets in each fragment. -/
structure Room (datagram : Datagram Octet) : Prop where
  /-- The size is kept in sixteen bits. -/
  small : datagram.packet.length < 2 ^ 16
  headers : datagram.origHdrSize ≤ datagram.origPacketSize
  payload : datagram.origPacketSize.toNat - datagram.origHdrSize.toNat ≤ datagram.packet.length
  first : 4 + datagram.compressedHeaderSize.toNat + datagram.extraHdrSize.toNat + 8 ≤ datagram.l2Mtu.toNat
  later : 5 + datagram.extraHdrSize.toNat + 8 ≤ datagram.l2Mtu.toNat
  tooLong : datagram.l2Mtu.toNat < datagram.packet.length + datagram.extraHdrSize.toNat

theorem toNat_sub {a b : UInt32} (le : b.toNat ≤ a.toNat) : (a - b).toNat = a.toNat - b.toNat :=
  UInt32.toNat_sub_of_le _ _ (UInt32.le_iff_toNat_le.mpr le)

/-- The multiple of eight below a size. -/
theorem toNat_floor (size : UInt32) : (size - size % 8).toNat = size.toNat / 8 * 8 := by
  have remainder : (size % 8).toNat = size.toNat % 8 := UInt32.toNat_mod _ _
  rw [toNat_sub (by rw [remainder]; exact mod_le _ _), remainder]
  omega

namespace Room

variable (room : datagram.Room)
include room

theorem packetSize_toNat : datagram.packetSize.toNat = datagram.packet.length :=
  toNat_ofNat_of_lt' (lt_trans room.small (by decide))

theorem compressedHeaderSize_toNat : datagram.compressedHeaderSize.toNat + datagram.origPacketSize.toNat =
    datagram.packet.length + datagram.origHdrSize.toNat := by
  have headers := le_iff_toNat_le.mp room.headers
  have payload := room.payload
  have size := toNat_sub headers
  unfold compressedHeaderSize
  rw [toNat_sub (by rw [size, room.packetSize_toNat]; exact payload), size, room.packetSize_toNat]
  omega

theorem laterSize_toNat : datagram.laterSize.toNat =
    (datagram.l2Mtu.toNat - 5 - datagram.extraHdrSize.toNat) / 8 * 8 := by
  have later := room.later
  have five : (5 : UInt32).toNat = 5 := rfl
  have mtu : datagram.l2Mtu.toUInt32.toNat = datagram.l2Mtu.toNat := UInt16.toNat_toUInt32 _
  have withoutHeader : (datagram.l2Mtu.toUInt32 - 5).toNat = datagram.l2Mtu.toNat - 5 := by
    rw [toNat_sub (by rw [five, mtu]; omega), five, mtu]
  unfold laterSize
  rw [toNat_floor, toNat_sub (by rw [withoutHeader]; omega), withoutHeader]

theorem firstSize_toNat : datagram.firstSize.toNat = (datagram.l2Mtu.toNat - 4 -
    datagram.compressedHeaderSize.toNat - datagram.extraHdrSize.toNat) / 8 * 8 +
      datagram.compressedHeaderSize.toNat := by
  have first := room.first
  have four : (4 : UInt32).toNat = 4 := rfl
  have mtu : datagram.l2Mtu.toUInt32.toNat = datagram.l2Mtu.toNat := UInt16.toNat_toUInt32 _
  have bound := UInt16.toNat_lt datagram.l2Mtu
  have withoutHeader : (datagram.l2Mtu.toUInt32 - 4).toNat = datagram.l2Mtu.toNat - 4 := by
    rw [toNat_sub (by rw [four, mtu]; omega), four, mtu]
  have withoutHeaders : (datagram.l2Mtu.toUInt32 - 4 - datagram.compressedHeaderSize).toNat =
      datagram.l2Mtu.toNat - 4 - datagram.compressedHeaderSize.toNat := by
    rw [toNat_sub (by rw [withoutHeader]; omega), withoutHeader]
  unfold firstSize
  rw [UInt32.toNat_add, toNat_floor, toNat_sub (by rw [withoutHeaders]; omega), withoutHeaders]
  exact mod_eq_of_lt (by omega)

theorem laterSize_pos : 8 ≤ datagram.laterSize.toNat := by
  have later := room.later
  rw [room.laterSize_toNat]
  omega

theorem firstSize_lt : datagram.firstSize.toNat < datagram.packet.length := by
  have tooLong := room.tooLong
  have first := room.first
  rw [room.firstSize_toNat]
  omega

end Room

/-- Fragments of the rest of a packet, from a position of the data and an offset on. -/
def Cut (datagram : Datagram Octet) : Nat -> UInt16 -> List (Fragment Octet) -> Prop
  | start, _, [] => start = datagram.packet.length
  | start, offset, fragment :: rest =>
    fragment.header = .fragN (setDatagramSize datagram.origPacketSize.toUInt16) datagram.tag (offset >>> 3).toUInt8 ∧
      fragment.data = (datagram.packet.drop start).take fragment.data.length ∧ fragment.data ≠ [] ∧
      start + fragment.data.length ≤ datagram.packet.length ∧ fragment.data.length ≤ datagram.laterSize.toNat ∧
      (rest ≠ [] -> fragment.data.length = datagram.laterSize.toNat) ∧
      Cut datagram (start + fragment.data.length) (offset + UInt16.ofNat fragment.data.length) rest

variable {start : Nat}

theorem createFragment_eq {size : Nat} (inside : start + size ≤ datagram.packet.length) :
    datagram.createFragment start size = some ((datagram.packet.drop start).take size) :=
  if_pos inside

theorem length_slice {size : Nat} (inside : start + size ≤ datagram.packet.length) :
    ((datagram.packet.drop start).take size).length = size := by
  rw [length_take, length_drop]
  omega

theorem fragmentLoop_cut (room : datagram.Room) (fuel : Nat) (offset offsetData : UInt16)
    (inside : offsetData.toNat ≤ datagram.packet.length) (enough : datagram.packet.length - offsetData.toNat < fuel) :
    ∃ fragments, datagram.fragmentLoop fuel offset offsetData = some fragments ∧
      datagram.Cut offsetData.toNat offset fragments := by
  induction fuel generalizing offset offsetData with
  | zero => exact absurd enough (Nat.not_lt_zero _)
  | succ fuel ih =>
    have small := room.small
    have pos := room.laterSize_pos
    have bound : datagram.laterSize.toNat < 2 ^ 16 := by
      have mtu := UInt16.toNat_lt datagram.l2Mtu
      rw [room.laterSize_toNat]
      omega
    have data : offsetData.toUInt32.toNat = offsetData.toNat := UInt16.toNat_toUInt32 _
    have sum : (offsetData.toUInt32 + datagram.laterSize).toNat = offsetData.toNat + datagram.laterSize.toNat := by
      rw [UInt32.toNat_add, data]
      exact Nat.mod_eq_of_lt (by omega)
    have isLast : offsetData.toUInt32 + datagram.laterSize > datagram.packetSize ↔
        datagram.packet.length < offsetData.toNat + datagram.laterSize.toNat := by
      rw [gt_iff_lt, UInt32.lt_iff_toNat_lt, sum, room.packetSize_toNat]
    have rest : (datagram.packetSize - offsetData.toUInt32).toNat = datagram.packet.length - offsetData.toNat := by
      rw [toNat_sub (by rw [data, room.packetSize_toNat]; exact inside), data, room.packetSize_toNat]
    rw [fragmentLoop]
    by_cases last : offsetData.toUInt32 + datagram.laterSize > datagram.packetSize
    · simp only [if_pos last]
      by_cases some : 0 < datagram.packetSize - offsetData.toUInt32
      · have left := UInt32.lt_iff_toNat_lt.mp some
        rw [rest, UInt32.toNat_zero] at left
        have inPacket : offsetData.toNat + (datagram.packet.length - offsetData.toNat) ≤
          datagram.packet.length := by omega
        rw [if_pos some, rest, createFragment_eq inPacket, bind_some]
        have length := length_slice inPacket
        refine ⟨_, rfl, rfl, ?_, ?_, ?_, ?_, fun more => absurd rfl more, ?_⟩
        · rw [length]
        · apply ne_nil_of_length_pos
          rw [length]
          exact left
        · rw [length]
          exact inPacket
        · rw [length]
          have ends := isLast.mp last
          omega
        · change _ = _
          rw [length]
          omega
      · rw [if_neg some]
        refine ⟨[], rfl, ?_⟩
        have none := UInt32.lt_iff_toNat_lt.not.mp some
        rw [rest, UInt32.toNat_zero] at none
        change _ = _
        omega
    · simp only [if_neg last]
      have inPacket : offsetData.toNat + datagram.laterSize.toNat ≤ datagram.packet.length :=
        Nat.le_of_not_lt (isLast.not.mp last)
      have some : 0 < datagram.laterSize := UInt32.lt_iff_toNat_lt.mpr (by rw [UInt32.toNat_zero]; omega)
      rw [if_pos some, createFragment_eq inPacket, bind_some]
      have length := length_slice inPacket
      have step : datagram.laterSize.toUInt16 = UInt16.ofNat datagram.laterSize.toNat := by
        apply UInt16.toNat_inj.mp
        simp
      have next : (offsetData + datagram.laterSize.toUInt16).toNat = offsetData.toNat + datagram.laterSize.toNat := by
        rw [UInt16.toNat_add, UInt32.toNat_toUInt16, Nat.mod_eq_of_lt bound]
        exact Nat.mod_eq_of_lt (by omega)
      obtain ⟨fragments, isRest, cut⟩ := ih (offset + datagram.laterSize.toUInt16)
        (offsetData + datagram.laterSize.toUInt16) (by rw [next]; exact inPacket) (by rw [next]; omega)
      rw [isRest]
      refine ⟨_, rfl, rfl, ?_, ?_, ?_, ?_, fun _ => length, ?_⟩
      · rw [length]
      · apply ne_nil_of_length_pos
        rw [length]
        omega
      · rw [length]
        exact inPacket
      · rw [length]
      · rw [next] at cut
        rw [length, ← step]
        exact cut

theorem fragmentLoop_succ {fuel : Nat} {offset offsetData : UInt16}
    (result : datagram.fragmentLoop fuel offset offsetData = some fragments) :
    datagram.fragmentLoop (fuel + 1) offset offsetData = some fragments := by
  induction fuel generalizing offset offsetData fragments with
  | zero => cases result
  | succ fuel ih =>
    rw [fragmentLoop] at result ⊢
    by_cases last : offsetData.toUInt32 + datagram.laterSize > datagram.packetSize
    · simp only [if_pos last] at result ⊢
      exact result
    · simp only [if_neg last] at result ⊢
      by_cases some : 0 < datagram.laterSize
      · rw [if_pos some] at result ⊢
        obtain ⟨data, isData, rest⟩ := bind_eq_some_iff.mp result
        obtain ⟨later, isLater, rfl⟩ := map_eq_some_iff.mp rest
        rw [isData, bind_some, ih isLater, map_some]
      · rw [if_neg some] at result ⊢
        exact ih result

theorem fragmentLoop_mono {fuel more : Nat} {offset offsetData : UInt16} (enough : fuel ≤ more)
    (result : datagram.fragmentLoop fuel offset offsetData = some fragments) :
    datagram.fragmentLoop more offset offsetData = some fragments := by
  induction enough with
  | refl => exact result
  | step _ ih => exact fragmentLoop_succ ih

/-- The offset of the second fragment. -/
def secondOffset (datagram : Datagram Octet) : UInt16 :=
  (datagram.firstSize + datagram.origHdrSize - datagram.compressedHeaderSize).toUInt16

def firstFragment (datagram : Datagram Octet) : Fragment Octet where
  header := .frag1 (setDatagramSize datagram.origPacketSize.toUInt16) datagram.tag
  data := datagram.packet.take datagram.firstSize.toNat

theorem Room.length_firstFragment (room : datagram.Room) :
    datagram.firstFragment.data.length = datagram.firstSize.toNat := by
  have less := room.firstSize_lt
  rw [firstFragment, length_take]
  omega

theorem doFragmentation_cut (room : datagram.Room) : ∃ rest,
    (∀ fuel, datagram.packet.length < fuel -> datagram.doFragmentation fuel = some (datagram.firstFragment :: rest)) ∧
      datagram.Cut datagram.firstSize.toNat datagram.secondOffset rest := by
  have less := room.firstSize_lt
  have small := room.small
  have offsetData : datagram.firstSize.toUInt16.toNat = datagram.firstSize.toNat := by
    rw [toNat_toUInt16]
    exact mod_eq_of_lt (by omega)
  obtain ⟨rest, isRest, cut⟩ := fragmentLoop_cut room (datagram.packet.length + 1) datagram.secondOffset
    datagram.firstSize.toUInt16 (by rw [offsetData]; omega) (by omega)
  rw [offsetData] at cut
  refine ⟨rest, fun fuel enough => ?_, cut⟩
  have mtu : datagram.l2Mtu > 4 := by
    rw [gt_iff_lt, UInt16.lt_iff_toNat_lt]
    have later := room.later
    change 4 < _
    omega
  unfold doFragmentation
  rw [if_pos mtu, createFragment_eq (by omega), bind_some, ← secondOffset, fragmentLoop_mono enough isRest,
    map_some, drop_zero]
  rfl

/-- The length of the data in some fragments. -/
def position (fragments : List (Fragment Octet)) : Nat :=
  (fragments.flatMap Fragment.data).length

theorem position_cons (fragment : Fragment Octet) (fragments : List (Fragment Octet)) :
    position (fragment :: fragments) = fragment.data.length + position fragments := by
  rw [position, flatMap_cons, length_append, position]

theorem Cut.data {offset : UInt16} (cut : datagram.Cut start offset fragments) :
    fragments.flatMap Fragment.data = datagram.packet.drop start := by
  induction fragments generalizing start offset with
  | nil =>
    rw [drop_eq_nil_of_le (le_of_eq cut.symm)]
    rfl
  | cons fragment rest ih =>
    obtain ⟨-, isData, -, -, -, -, next⟩ := cut
    rw [flatMap_cons, ih next, ← drop_drop]
    nth_rewrite 1 [isData]
    exact take_append_drop _ _

theorem Cut.at {offset : UInt16} (cut : datagram.Cut start offset fragments)
    {before after : List (Fragment Octet)} {fragment : Fragment Octet}
    (split : fragments = before ++ fragment :: after) :
    datagram.Cut (start + position before) (offset + UInt16.ofNat (position before)) (fragment :: after) ∧
      position before = before.length * datagram.laterSize.toNat := by
  induction before generalizing fragments start offset with
  | nil =>
    subst split
    have zero : offset + UInt16.ofNat (position ([] : List (Fragment Octet))) = offset := by
      apply UInt16.toNat_inj.mp
      simp [position]
    rw [zero]
    exact ⟨cut, by simp [position]⟩
  | cons first before ih =>
    subst split
    obtain ⟨-, -, -, -, -, whole, next⟩ := cut
    have length := whole (by simp)
    obtain ⟨here, isPosition⟩ := ih next rfl
    rw [position_cons, UInt16.ofNat_add, ← UInt16.add_assoc, ← add_assoc]
    refine ⟨here, ?_⟩
    rw [isPosition, length, length_cons, succ_mul, add_comm]

/-- Where the data of a fragment belong in the original packet, behind the fragments before it. -/
def place (datagram : Datagram Octet) (before : List (Fragment Octet)) : Nat :=
  if before.isEmpty then 0
  else position before + datagram.origHdrSize.toNat - datagram.compressedHeaderSize.toNat

/-- Fragments that fit, cover the packet once, and announce the datagram and where their data
belong. -/
structure CoversOnce (datagram : Datagram Octet) (fragments : List (Fragment Octet)) : Prop where
  fits : ∀ fragment ∈ fragments, fragment.header.serializedSize + fragment.data.length + datagram.extraHdrSize.toNat ≤
    datagram.l2Mtu.toNat
  data : fragments.flatMap Fragment.data = datagram.packet
  notEmpty : ∀ fragment ∈ fragments, fragment.data ≠ []
  announced : ∀ before fragment after, fragments = before ++ fragment :: after ->
    fragment.header.datagramSize.toNat = datagram.origPacketSize.toNat ∧ fragment.header.datagramTag = datagram.tag ∧
      fragment.header.isFirst = before.isEmpty ∧ 8 * fragment.header.datagramOffset.toNat = datagram.place before

/-- The fragmentation ends, and its result covers the packet. -/
def FragmentsWell (datagram : Datagram Octet) : Prop :=
  ∃ fragments, (∀ fuel, datagram.packet.length < fuel -> datagram.doFragmentation fuel = some fragments) ∧
    datagram.CoversOnce fragments

/-- The sizes that the fields can hold. -/
def Announceable (datagram : Datagram Octet) : Prop :=
  datagram.origPacketSize.toNat < 2 ^ 11 ∧ datagram.origHdrSize.toNat % 8 = 0

theorem toNat_setDatagramSize (size : UInt16) : (setDatagramSize size).toNat = size.toNat % 2 ^ 11 := by
  rw [setDatagramSize, UInt16.toNat_and]
  exact and_two_pow_sub_one_eq_mod _ 11

section

variable (announceable : datagram.Announceable)
include announceable

theorem Announceable.datagramSize :
    (setDatagramSize datagram.origPacketSize.toUInt16).toNat = datagram.origPacketSize.toNat := by
  have bound := announceable.1
  rw [toNat_setDatagramSize, toNat_toUInt16]
  omega

theorem Announceable.secondOffset (room : datagram.Room) :
    datagram.secondOffset.toNat + datagram.compressedHeaderSize.toNat =
      datagram.firstSize.toNat + datagram.origHdrSize.toNat := by
  obtain ⟨bound, -⟩ := announceable
  have headers := UInt32.le_iff_toNat_le.mp room.headers
  have first := room.firstSize_toNat
  have less := room.firstSize_lt
  have whole := room.compressedHeaderSize_toNat
  have small := room.small
  have sum : (datagram.firstSize + datagram.origHdrSize).toNat =
      datagram.firstSize.toNat + datagram.origHdrSize.toNat := by
    rw [UInt32.toNat_add]
    exact mod_eq_of_lt (by omega)
  rw [Datagram.secondOffset, UInt32.toNat_toUInt16, toNat_sub (by rw [sum]; omega), sum]
  omega

theorem Announceable.offset (room : datagram.Room)
    {rest before after : List (Fragment Octet)} {fragment : Fragment Octet}
    (cut : datagram.Cut datagram.firstSize.toNat datagram.secondOffset rest)
    (split : rest = before ++ fragment :: after) :
    8 * fragment.header.datagramOffset.toNat + datagram.compressedHeaderSize.toNat =
      datagram.firstSize.toNat + position before + datagram.origHdrSize.toNat := by
  obtain ⟨⟨isHeader, -, -, inside, -⟩, multiple⟩ := cut.at split
  have second := announceable.secondOffset room
  obtain ⟨bound, aligned⟩ := announceable
  have first := room.firstSize_toNat
  have later := room.laterSize_toNat
  have whole := room.compressedHeaderSize_toNat
  have eight : position before % 8 = 0 := by
    rw [multiple, later, ← mul_assoc]
    exact mul_mod_left _ _
  have offset : (datagram.secondOffset + UInt16.ofNat (position before)).toNat =
      datagram.secondOffset.toNat + position before := by
    rw [UInt16.toNat_add, UInt16.toNat_ofNat']
    omega
  rw [isHeader]
  change 8 * (((datagram.secondOffset + UInt16.ofNat (position before)) >>> 3).toUInt8).toNat + _ = _
  rw [UInt16.toNat_toUInt8, UInt16.toNat_shiftRight, offset]
  change 8 * ((datagram.secondOffset.toNat + position before) >>> 3 % 2 ^ 8) + _ = _
  rw [shiftRight_eq_div_pow]
  omega

end

/-- The fragments are well exactly if the sizes can be announced. -/
theorem fragmentsWell_iff (room : datagram.Room) : datagram.FragmentsWell ↔ datagram.Announceable := by
  obtain ⟨rest, isResult, cut⟩ := doFragmentation_cut room
  have first := room.firstSize_toNat
  have length := room.length_firstFragment
  have less := room.firstSize_lt
  have whole := room.compressedHeaderSize_toNat
  constructor
  · rintro ⟨fragments, isFragments, covers⟩
    have same := (isFragments _ (lt_succ_self _)).symm.trans (isResult _ (lt_succ_self _))
    cases same
    obtain ⟨isSize, -⟩ := covers.announced [] _ rest rfl
    change (setDatagramSize datagram.origPacketSize.toUInt16).toNat = _ at isSize
    rw [toNat_setDatagramSize] at isSize
    refine ⟨by omega, ?_⟩
    cases rest with
    | nil =>
      have start : datagram.firstSize.toNat = datagram.packet.length := cut
      omega
    | cons second rest =>
      obtain ⟨-, -, -, isPlace⟩ := covers.announced [datagram.firstFragment] second rest rfl
      rw [place, if_neg (by simp), position_cons, length] at isPlace
      change _ = datagram.firstSize.toNat + 0 + _ - _ at isPlace
      omega
  · intro announceable
    have size := announceable.datagramSize
    refine ⟨_, isResult, ⟨?_, ?_, ?_, ?_⟩⟩
    · intro fragment mem
      have firstRoom := room.first
      have laterRoom := room.later
      have later := room.laterSize_toNat
      rcases mem_cons.mp mem with rfl | inRest
      · rw [length, first]
        change 4 + _ + _ ≤ _
        omega
      · obtain ⟨before, after, split⟩ := append_of_mem inRest
        obtain ⟨isHeader, -, -, -, bound, -⟩ := (cut.at split).1
        rw [isHeader]
        change 5 + _ + _ ≤ _
        omega
    · rw [flatMap_cons, cut.data]
      exact take_append_drop _ _
    · intro fragment mem
      have firstRoom := room.first
      rcases mem_cons.mp mem with rfl | inRest
      · apply ne_nil_of_length_pos
        omega
      · obtain ⟨before, after, split⟩ := append_of_mem inRest
        exact (cut.at split).1.2.2.1
    · intro before fragment after split
      cases before with
      | nil =>
        obtain ⟨rfl, -⟩ := List.cons.inj split
        exact ⟨size, rfl, rfl, rfl⟩
      | cons head before =>
        obtain ⟨rfl, inRest⟩ := List.cons.inj split
        have offset := announceable.offset room cut inRest
        obtain ⟨isHeader, -⟩ := (cut.at inRest).1
        rw [place, if_neg (by simp), position_cons, length]
        refine ⟨?_, ?_, ?_, by omega⟩
        · rw [isHeader]
          exact size
        · rw [isHeader]
          rfl
        · rw [isHeader]
          rfl

end Ns3.SixLowPan.Datagram
