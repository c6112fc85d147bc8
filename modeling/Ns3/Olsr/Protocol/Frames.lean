import Ns3.Olsr.Protocol.Deserialize

/-!
# Well-framed packets

What a packet must be for its messages to be read: each length field says how long its part is.
Written packets are of this form, and no others are read to their end.
-/

namespace Ns3.Olsr.Protocol

open Network BufferIterator BoundedIterator Semantics BoundedReader List UInt32 MessageHeader

/-! ## Frames -/

/-- A link message with its size; the reserved octet is ignored. -/
def LinkMessage.Framed (linkMessage : LinkMessage) (octets : List UInt8) : Prop :=
  linkMessage.size < 2 ^ 16 ∧ ∃ reserved, octets = [linkMessage.linkCode, reserved] ++
    writeHtonU16 (UInt16.ofNat linkMessage.size) ++ linkMessage.neighborInterfaceAddresses.flatMap writeAddress

def Hello.Framed (hello : Hello) (octets : List UInt8) : Prop :=
  ∃ (reserved : UInt16) (frames : List (List UInt8)), List.Forall₂ LinkMessage.Framed hello.linkMessages frames ∧
    octets = writeHtonU16 reserved ++ [hello.hTime, hello.willingness] ++ frames.flatten

def Tc.Framed (tc : Tc) (octets : List UInt8) : Prop :=
  ∃ reserved : UInt16,
    octets = writeHtonU16 tc.ansn ++ writeHtonU16 reserved ++ tc.neighborAddresses.flatMap writeAddress

def Mid.Framed (mid : Mid) (octets : List UInt8) : Prop :=
  octets = mid.serialize

def Hna.Framed (hna : Hna) (octets : List UInt8) : Prop :=
  octets = hna.serialize

def Message.Framed : Message -> List UInt8 -> Prop
  | hello body, octets => body.Framed octets
  | tc body, octets => body.Framed octets
  | mid body, octets => body.Framed octets
  | hna body, octets => body.Framed octets

/-- A message with the size of its header and body. -/
def MessageHeader.Framed (header : MessageHeader) (octets : List UInt8) : Prop :=
  ∃ body : List UInt8, header.message.Framed body ∧ 12 + body.length < 2 ^ 16 ∧
    octets = [header.message.type, header.vTime] ++ writeHtonU16 (UInt16.ofNat (12 + body.length)) ++
      writeAddress header.originatorAddress ++ [header.timeToLive, header.hopCount] ++
        writeHtonU16 header.messageSequenceNumber ++ body

/-- A packet with messages; what follows them is ignored. -/
def Framed (messages : List MessageHeader) (packet : List UInt8) : Prop :=
  ∃ (packetSequenceNumber : UInt16) (frames : List (List UInt8)) (tail : List UInt8),
    List.Forall₂ MessageHeader.Framed messages frames ∧ 4 + frames.flatten.length < 2 ^ 16 ∧
      packet = writeHtonU16 (UInt16.ofNat (4 + frames.flatten.length)) ++ writeHtonU16 packetSequenceNumber ++
        frames.flatten ++ tail

def WellFramed (packet : List UInt8) : Prop :=
  ∃ messages, Framed messages packet

/-! ## Addresses -/

theorem reads_readAddress : Reads readAddress fun addr octets => octets = writeAddress addr := by
  apply (reads_readNtohU32.bind fun bits => reads_pure (Ipv4Address.mk bits)).congr
  intro addr octets
  constructor
  · rintro ⟨bits, _, _, rfl, ⟨rfl, rfl⟩, rfl⟩
    exact append_nil _
  · rintro rfl
    exact ⟨addr.bits, _, [], rfl, ⟨rfl, rfl⟩, (append_nil _).symm⟩

theorem reads_readAssociation :
    Reads readAssociation fun association octets => octets = association.serialize := by
  apply (reads_readAddress.bind fun addr => reads_readNtohU32.bind fun mask =>
    reads_pure (HnaAssociation.mk addr ⟨mask⟩)).congr
  intro association octets
  constructor
  · rintro ⟨addr, _, _, rfl, ⟨mask, _, _, rfl, ⟨rfl, rfl⟩, rfl⟩, rfl⟩
    rfl
  · rintro rfl
    exact ⟨association.address, _, _, rfl, ⟨association.mask.bits, _, [], rfl, ⟨rfl, rfl⟩, (append_nil _).symm⟩, rfl⟩

@[simp] theorem length_writeAddress (addr : Ipv4Address) : (writeAddress addr).length = 4 :=
  rfl

@[simp] theorem length_writeAddresses (addresses : List Ipv4Address) :
    (addresses.flatMap writeAddress).length = addresses.length * 4 := by
  simp [length_flatMap]

@[simp] theorem length_writeAssociations (associations : List HnaAssociation) :
    (associations.flatMap HnaAssociation.serialize).length = associations.length * 8 := by
  have each (association : HnaAssociation) : association.serialize.length = 8 := rfl
  simp [each]

/-! ## HELLO messages -/

theorem reads_subtract (left size : UInt16) :
    Reads (subtract left size) fun read octets => size ≤ left ∧ read = left - size ∧ octets = [] := by
  rw [subtract]
  by_cases less : left < size
  · rw [if_pos less]
    apply (reads_fail .wraps).congr
    simp [UInt16.not_le.2 less]
  · rw [if_neg less]
    apply (reads_pure (left - size)).congr
    simp [UInt16.not_lt.1 less]

/-- A count below zero never ends. -/
theorem reads_readAddressesDown (count : Int) :
    Reads (readAddressesDown count) fun addresses octets =>
      (addresses.length : Int) = count ∧ octets = addresses.flatMap writeAddress := by
  intro cursor addresses next
  rw [readAddressesDown]
  split
  case isTrue negative =>
    rw [reads_readAddress.readMany]
    constructor
    · rintro ⟨octets, ⟨isCount, rfl⟩, same⟩
      have rest := congrArg (fun cursor => cursor.rest.length) same
      simp only [length_append, length_writeAddresses] at rest
      omega
    · rintro ⟨octets, ⟨isCount, -⟩, -⟩
      omega
  case isFalse nonnegative =>
    have isCount : addresses.length = count.toNat ↔ (addresses.length : Int) = count := by omega
    rw [reads_readAddress.readMany]
    simp only [isCount]

variable {octets packet : List UInt8}

variable {linkMessage : LinkMessage} {message : Message} {header : MessageHeader}

theorem LinkMessage.Framed.length_eq (framed : linkMessage.Framed octets) : octets.length = linkMessage.size := by
  obtain ⟨-, reserved, rfl⟩ := framed
  simp [LinkMessage.size]
  omega

theorem size_of_count {lmSize count : Nat} (multiple : ((lmSize : Int) - 4).tmod 4 = 0)
    (isCount : (count : Int) = ((lmSize : Int) - 4).tdiv 4) : lmSize = 4 + count * 4 := by
  have split := Int.mul_tdiv_add_tmod ((lmSize : Int) - 4) 4
  omega

theorem nothing_left (linkMessages : List LinkMessage) (octets : List UInt8) : linkMessages = [] ∧ octets = [] ↔
    ∃ frames, List.Forall₂ LinkMessage.Framed linkMessages frames ∧ octets = frames.flatten ∧ octets.length = 0 := by
  constructor
  · rintro ⟨rfl, rfl⟩
    exact ⟨[], .nil, rfl, rfl⟩
  · rintro ⟨frames, framed, rfl, isEmpty⟩
    cases framed with
    | nil => exact ⟨rfl, rfl⟩
    | cons first others =>
      have length := first.length_eq
      rw [flatten_cons, length_append, length, LinkMessage.size] at isEmpty
      omega

variable {rounds : Nat}

theorem reads_readLinkMessages {helloSizeLeft : UInt16} (enough : helloSizeLeft.toNat ≤ rounds) :
    Reads (readLinkMessages rounds helloSizeLeft) fun linkMessages octets =>
      ∃ frames, List.Forall₂ LinkMessage.Framed linkMessages frames ∧ octets = frames.flatten ∧
        octets.length = helloSizeLeft.toNat := by
  induction rounds generalizing helloSizeLeft with
  | zero =>
    have zero : helloSizeLeft.toNat = 0 := Nat.le_zero.1 enough
    apply (reads_pure []).congr
    intro linkMessages octets
    rw [zero]
    exact nothing_left linkMessages octets
  | succ rounds ih =>
    rw [readLinkMessages]
    by_cases zero : helloSizeLeft = 0
    · rw [if_pos zero, zero]
      exact (reads_pure []).congr nothing_left
    · rw [if_neg zero]
      have round := (reads_check (4 ≤ helloSizeLeft)).bind fun _ => reads_readU8.bind fun linkCode =>
        reads_readU8.bind fun _ => reads_readNtohU16.bind fun lmSize =>
          (reads_check (((lmSize.toNat : Int) - 4).tmod 4 = 0)).bind_of fun _ _ multiple =>
            (reads_readAddressesDown (((lmSize.toNat : Int) - 4).tdiv 4)).bind_of fun addresses _ counted =>
              (reads_subtract helloSizeLeft lmSize).bind_of fun left _ taken =>
                (@ih left (by
                  have size := size_of_count multiple.1 counted.1
                  rw [taken.2.1, UInt16.toNat_sub_of_le _ _ taken.1]
                  omega)).bind fun linkMessages => reads_pure (⟨linkCode, addresses⟩ :: linkMessages)
      refine round.congr ?_
      intro linkMessages octets
      constructor
      · rintro ⟨_, _, _, ⟨-, rfl⟩,
          ⟨linkCode, _, _, rfl, ⟨reserved, _, _, rfl, ⟨lmSize, _, _, rfl, ⟨_, _, _, ⟨multiple, rfl⟩,
          ⟨addresses, _, _, ⟨isCount, rfl⟩,
            ⟨left, _, _, ⟨less, rfl, rfl⟩, ⟨others, _, _, ⟨frames, framed, rfl, isLength⟩,
            ⟨rfl, rfl⟩, rfl⟩, rfl⟩, rfl⟩, rfl⟩, rfl⟩, rfl⟩, rfl⟩, rfl⟩
        have size := size_of_count multiple isCount
        have isSize : UInt16.ofNat (LinkMessage.mk linkCode addresses).size = lmSize := by
          rw [LinkMessage.size, ← size, UInt16.ofNat_toNat]
        have isFramed : (LinkMessage.mk linkCode addresses).Framed
            ([linkCode, reserved] ++ writeHtonU16 lmSize ++ addresses.flatMap writeAddress) := by
          refine ⟨?_, reserved, by rw [isSize]⟩
          rw [LinkMessage.size, ← size]
          exact lmSize.toNat_lt
        refine ⟨_ :: frames, .cons isFramed framed, ?_, ?_⟩
        · simp
        · have lessNat := UInt16.le_iff_toNat_le.1 less
          rw [UInt16.toNat_sub_of_le _ _ less] at isLength
          simp only [length_append, length_singleton, length_writeHtonU16, length_writeAddresses, length_nil]
          omega
      · rintro ⟨frames, framed, rfl, isLength⟩
        cases framed with
        | nil =>
          exact absurd (UInt16.toNat_inj.1 isLength.symm) zero
        | @cons linkMessage frame linkMessages frames first others =>
          have frameLength := first.length_eq
          obtain ⟨small, reserved, rfl⟩ := first
          rw [flatten_cons, length_append, frameLength] at isLength
          have size : (UInt16.ofNat linkMessage.size).toNat = linkMessage.size := UInt16.toNat_ofNat_of_lt' small
          have counted : ((UInt16.ofNat linkMessage.size).toNat : Int) - 4 =
              linkMessage.neighborInterfaceAddresses.length * 4 := by
            rw [size, LinkMessage.size]
            omega
          have four : 4 ≤ helloSizeLeft := by
            apply UInt16.le_iff_toNat_le.2
            have atLeast : 4 ≤ linkMessage.size := Nat.le_add_right 4 _
            exact atLeast.trans (isLength ▸ Nat.le_add_right _ _)
          have less : UInt16.ofNat linkMessage.size ≤ helloSizeLeft := by
            rw [UInt16.le_iff_toNat_le, size, ← isLength]
            exact Nat.le_add_right _ _
          have left : frames.flatten.length = (helloSizeLeft - UInt16.ofNat linkMessage.size).toNat := by
            rw [UInt16.toNat_sub_of_le _ _ less, size, ← isLength, Nat.add_sub_cancel_left]
          refine ⟨.unit, [], _, ⟨four, rfl⟩, ⟨linkMessage.linkCode, _, _, rfl, ⟨reserved, _, _, rfl,
            ⟨UInt16.ofNat linkMessage.size, _, _, rfl, ⟨.unit, [], _, ⟨?_, rfl⟩,
              ⟨linkMessage.neighborInterfaceAddresses, _, _, ⟨?_, rfl⟩, ⟨_, [], _, ⟨less, rfl, rfl⟩,
                ⟨linkMessages, _, [], ⟨frames, others, rfl, left⟩, ⟨rfl, rfl⟩, rfl⟩, rfl⟩, rfl⟩,
                  rfl⟩, rfl⟩, rfl⟩, rfl⟩, ?_⟩
          · rw [counted]
            exact Int.mul_tmod_left _ 4
          · rw [counted]
            exact (Int.mul_tdiv_cancel _ (by decide)).symm
          · simp

/-! ## Message bodies -/

variable {messageSize : UInt32}

theorem Hello.reads_deserialize (small : messageSize.toNat < 2 ^ 16) :
    Reads (Hello.deserialize messageSize) fun read octets =>
      read.2 = messageSize ∧ read.1.Framed octets ∧ octets.length = messageSize.toNat := by
  have narrow : messageSize.toUInt16.toNat = messageSize.toNat := by
    rw [toNat_toUInt16, Nat.mod_eq_of_lt small]
  have reads := (reads_check (4 ≤ messageSize)).bind fun _ =>
    reads_readNtohU16.bind fun _ => reads_readU8.bind fun hTime =>
    reads_readU8.bind fun willingness => (reads_subtract messageSize.toUInt16 4).bind fun helloSizeLeft =>
      (reads_readLinkMessages (Nat.le_refl helloSizeLeft.toNat)).bind fun linkMessages =>
        reads_pure (Hello.mk hTime willingness linkMessages, messageSize)
  apply reads.congr
  rintro ⟨hello, size⟩ octets
  constructor
  · rintro ⟨_, _, _, ⟨-, rfl⟩,
      ⟨reserved, _, _, rfl, ⟨hTime, _, _, rfl, ⟨willingness, _, _, rfl, ⟨_, _, _, ⟨four, rfl, rfl⟩,
      ⟨linkMessages, _, _, ⟨frames, framed, rfl, isLength⟩, ⟨same, rfl⟩, rfl⟩, rfl⟩, rfl⟩, rfl⟩, rfl⟩, rfl⟩
    cases same
    have atLeast : 4 ≤ messageSize.toUInt16.toNat := UInt16.le_iff_toNat_le.1 four
    rw [UInt16.toNat_sub_of_le _ _ four] at isLength
    refine ⟨rfl, ⟨reserved, frames, framed, by simp⟩, ?_⟩
    simp only [length_append, length_writeHtonU16, length_singleton, isLength, length_nil, UInt16.reduceToNat]
    omega
  · rintro ⟨rfl, ⟨reserved, frames, framed, rfl⟩, isLength⟩
    simp only [length_append] at isLength
    have four : 4 ≤ size.toUInt16 := by
      rw [UInt16.le_iff_toNat_le, narrow]
      exact Nat.le.intro isLength
    have fourWide : 4 ≤ size := by
      exact Nat.le.intro isLength
    have left : frames.flatten.length = (size.toUInt16 - 4).toNat := by
      rw [UInt16.toNat_sub_of_le _ _ four, narrow]
      exact Nat.eq_sub_of_add_eq' isLength
    exact ⟨.unit, [], _, ⟨fourWide, rfl⟩, ⟨reserved, _, _, rfl, ⟨hello.hTime, _, _, rfl, ⟨hello.willingness, _, _, rfl,
      ⟨_, [], _, ⟨four, rfl, rfl⟩,
        ⟨hello.linkMessages, _, [], ⟨frames, framed, rfl, left⟩, ⟨rfl, rfl⟩, rfl⟩, rfl⟩, rfl⟩, rfl⟩,
        rfl⟩, by simp⟩

theorem count_iff {size : UInt32} {length : Nat} (width : UInt32) (pos : 0 < width.toNat) :
    size % width = 0 ∧ length = (size / width).toNat ↔ length * width.toNat = size.toNat := by
  rw [← UInt32.toNat_inj, UInt32.toNat_mod, UInt32.toNat_div]
  constructor
  · rintro ⟨multiple, rfl⟩
    exact Nat.div_mul_cancel (Nat.dvd_of_mod_eq_zero multiple)
  · intro same
    rw [← same]
    exact ⟨Nat.mul_mod_left _ _, (Nat.mul_div_cancel _ pos).symm⟩

theorem Tc.reads_deserialize (small : messageSize.toNat < 2 ^ 16) :
    Reads (Tc.deserialize messageSize) fun read octets =>
      read.2 = messageSize ∧ read.1.Framed octets ∧ octets.length = messageSize.toNat := by
  have reads := (reads_check (4 ≤ messageSize)).bind fun _ =>
    reads_readNtohU16.bind fun ansn => reads_readNtohU16.bind fun _ =>
    (reads_check ((messageSize - 4) % 4 = 0)).bind fun _ =>
      (reads_readAddress.readMany ((messageSize - 4) / 4).toNat).bind fun neighborAddresses =>
        reads_pure (Tc.mk ansn neighborAddresses, messageSize)
  apply reads.congr
  rintro ⟨tc, size⟩ octets
  constructor
  · rintro ⟨_, _, _, ⟨four, rfl⟩, ⟨ansn, _, _, rfl, ⟨reserved, _, _, rfl, ⟨_, _, _, ⟨multiple, rfl⟩, ⟨addresses, _, _,
      ⟨isCount, rfl⟩, ⟨same, rfl⟩, rfl⟩, rfl⟩, rfl⟩, rfl⟩, rfl⟩
    cases same
    have count : addresses.length * 4 = (messageSize - 4).toNat := (count_iff 4 (by decide)).1 ⟨multiple, isCount⟩
    have atLeast : 4 ≤ messageSize.toNat := UInt32.le_iff_toNat_le.1 four
    rw [UInt32.toNat_sub_of_le _ _ four] at count
    refine ⟨rfl, ⟨reserved, by simp⟩, ?_⟩
    simp only [length_append, length_writeHtonU16, length_writeAddresses, count, length_nil, UInt32.reduceToNat]
    omega
  · rintro ⟨rfl, ⟨reserved, rfl⟩, isLength⟩
    simp only [length_append, length_writeAddresses] at isLength
    have four : 4 ≤ size := by
      exact Nat.le.intro isLength
    have count : tc.neighborAddresses.length * 4 = (size - 4).toNat := by
      rw [UInt32.toNat_sub_of_le _ _ four]
      exact Nat.eq_sub_of_add_eq' isLength
    obtain ⟨multiple, isCount⟩ := (count_iff 4 (by decide)).2 count
    exact ⟨.unit, [], _, ⟨four, rfl⟩, ⟨tc.ansn, _, _, rfl, ⟨reserved, _, _, rfl, ⟨.unit, [], _, ⟨multiple, rfl⟩,
      ⟨tc.neighborAddresses, _, [], ⟨isCount, rfl⟩, ⟨rfl, rfl⟩, rfl⟩, rfl⟩, rfl⟩, rfl⟩, by simp⟩

theorem Mid.reads_deserialize (messageSize : UInt32) : Reads (Mid.deserialize messageSize) fun read octets =>
    read.2 = messageSize ∧ read.1.Framed octets ∧ octets.length = messageSize.toNat := by
  have reads := (reads_check (messageSize % 4 = 0)).bind fun _ =>
    (reads_readAddress.readMany (messageSize / 4).toNat).bind fun interfaceAddresses =>
      reads_pure (Mid.mk interfaceAddresses, (Mid.mk interfaceAddresses).getSerializedSize)
  have isSize {mid : Mid} (count : mid.interfaceAddresses.length * 4 = messageSize.toNat) :
      mid.getSerializedSize = messageSize := by
    rw [getSerializedSize, count, UInt32.ofNat_toNat]
  apply reads.congr
  rintro ⟨mid, size⟩ octets
  constructor
  · rintro ⟨_, _, _, ⟨multiple, rfl⟩, ⟨addresses, _, _, ⟨isCount, rfl⟩, ⟨same, rfl⟩, rfl⟩, rfl⟩
    cases same
    have count : addresses.length * 4 = messageSize.toNat := (count_iff 4 (by decide)).1 ⟨multiple, isCount⟩
    refine ⟨isSize count, by simp [Framed, serialize], ?_⟩
    rw [nil_append, append_nil, length_writeAddresses, count]
  · rintro ⟨same, rfl, isLength⟩
    have count : mid.interfaceAddresses.length * 4 = messageSize.toNat := (length_writeAddresses _).symm.trans isLength
    obtain ⟨multiple, isCount⟩ := (count_iff 4 (by decide)).2 count
    refine ⟨.unit, [], _, ⟨multiple, rfl⟩,
      ⟨mid.interfaceAddresses, _, [], ⟨isCount, rfl⟩, ⟨?_, rfl⟩, rfl⟩, by simp [serialize]⟩
    exact Prod.ext rfl (same.trans (isSize count).symm)

theorem Hna.reads_deserialize (messageSize : UInt32) : Reads (Hna.deserialize messageSize) fun read octets =>
    read.2 = messageSize ∧ read.1.Framed octets ∧ octets.length = messageSize.toNat := by
  have reads := (reads_check (messageSize % 8 = 0)).bind fun _ =>
    (reads_readAssociation.readMany (messageSize / 4 / 2).toNat).bind fun associations =>
      reads_pure (Hna.mk associations, messageSize)
  have eighth : (messageSize / 4 / 2).toNat = (messageSize / 8).toNat := by
    simp only [UInt32.toNat_div, UInt32.reduceToNat]
    omega
  rw [eighth] at reads
  rw [Hna.deserialize, eighth]
  apply reads.congr
  rintro ⟨hna, size⟩ octets
  constructor
  · rintro ⟨_, _, _, ⟨multiple, rfl⟩, ⟨associations, _, _, ⟨isCount, rfl⟩, ⟨same, rfl⟩, rfl⟩, rfl⟩
    cases same
    have count : associations.length * 8 = messageSize.toNat := (count_iff 8 (by decide)).1 ⟨multiple, isCount⟩
    refine ⟨rfl, by simp [Framed, serialize], ?_⟩
    rw [nil_append, append_nil, length_writeAssociations, count]
  · rintro ⟨rfl, rfl, isLength⟩
    have count : hna.associations.length * 8 = size.toNat := (length_writeAssociations _).symm.trans isLength
    obtain ⟨multiple, isCount⟩ := (count_iff 8 (by decide)).2 count
    exact ⟨.unit, [], _, ⟨multiple, rfl⟩,
      ⟨hna.associations, _, [], ⟨isCount, rfl⟩, ⟨rfl, rfl⟩, rfl⟩, by simp [serialize]⟩

theorem reads_body {Body : Type} {reader : Reader (Body × UInt32)} {Framed : Body -> List UInt8 -> Prop}
    (reads : Reads reader fun read octets =>
      read.2 = messageSize ∧ Framed read.1 octets ∧ octets.length = messageSize.toNat) (wrap : Body -> Message) :
    Reads (do
      let (body, size) ← reader
      return (wrap body, size) : Reader (Message × UInt32)) fun read octets =>
        read.2 = messageSize ∧ (∃ body, read.1 = wrap body ∧ Framed body octets) ∧
          octets.length = messageSize.toNat := by
  apply (reads.bind fun body => reads_pure (wrap body.1, body.2)).congr
  rintro ⟨message, size⟩ octets
  constructor
  · rintro ⟨⟨body, _⟩, front, _, ⟨rfl, framed, isLength⟩, ⟨same, rfl⟩, rfl⟩
    cases same
    rw [append_nil]
    exact ⟨rfl, ⟨body, rfl, framed⟩, isLength⟩
  · rintro ⟨rfl, ⟨body, rfl, framed⟩, isLength⟩
    exact ⟨(body, size), octets, [], ⟨rfl, framed, isLength⟩, ⟨rfl, rfl⟩, (append_nil octets).symm⟩

theorem Message.reads_deserialize (messageType : UInt8) (small : messageSize.toNat < 2 ^ 16) :
    Reads (Message.deserialize messageType messageSize) fun read octets =>
      read.2 = messageSize ∧ (read.1.type = messageType ∧ read.1.Framed octets) ∧
        octets.length = messageSize.toNat := by
  rw [Message.deserialize]
  split
  case isTrue isMid =>
    apply (reads_body (Mid.reads_deserialize messageSize) .mid).congr
    rintro ⟨message, size⟩ octets
    cases message <;> simp [isMid, Message.type, Message.Framed]
  case isFalse =>
    split
    case isTrue isHello =>
      apply (reads_body (Hello.reads_deserialize small) .hello).congr
      rintro ⟨message, size⟩ octets
      cases message <;> simp [isHello, Message.type, Message.Framed]
    case isFalse =>
      split
      case isTrue isTc =>
        apply (reads_body (Tc.reads_deserialize small) .tc).congr
        rintro ⟨message, size⟩ octets
        cases message <;> simp [isTc, Message.type, Message.Framed]
      case isFalse =>
        split
        case isTrue isHna =>
          apply (reads_body (Hna.reads_deserialize messageSize) .hna).congr
          rintro ⟨message, size⟩ octets
          cases message <;> simp [isHna, Message.type, Message.Framed]
        case isFalse notMid notHello notTc notHna =>
          apply (reads_fail .assertion).congr
          rintro ⟨message, size⟩ octets
          cases message <;> simp [Message.type, Ne.symm notMid, Ne.symm notHello, Ne.symm notTc, Ne.symm notHna]

/-! ## Messages -/

theorem Message.type_range (message : Message) : 1 ≤ message.type ∧ message.type ≤ 4 := by
  cases message <;> simp only [Message.type] <;> decide

theorem needs_deserializeFields (messageType vTime : UInt8) (messageSize : UInt16) :
    Needs (deserializeFields messageType vTime messageSize) 8 := by
  refine reads_readAddress.needs_bind 4 ?_ fun _ => reads_readU8.needs_bind 1 ?_ fun _ =>
    reads_readU8.needs_bind 1 ?_ fun _ => reads_readNtohU16.needs_bind 2 ?_ fun _ => needs_zero _
  · rintro addr _ rfl
    rfl
  · rintro octet _ rfl
    rfl
  · rintro octet _ rfl
    rfl
  · rintro word _ rfl
    rfl

theorem reads_deserializeFields {messageType vTime : UInt8} {messageSize : UInt16} (long : 12 ≤ messageSize.toNat) :
    Reads (deserializeFields messageType vTime messageSize) fun read octets =>
      read.2 = messageSize.toUInt32 ∧ read.1.vTime = vTime ∧ read.1.message.type = messageType ∧
        ∃ body, read.1.message.Framed body ∧ 12 + body.length = messageSize.toNat ∧
          octets = writeAddress read.1.originatorAddress ++ [read.1.timeToLive, read.1.hopCount] ++
            writeHtonU16 read.1.messageSequenceNumber ++ body := by
  have twelve : 12 ≤ messageSize.toUInt32 := by
    exact long
  have bodySize : (messageSize.toUInt32 - 12).toNat = messageSize.toNat - 12 := by
    rw [UInt32.toNat_sub_of_le _ _ twelve]
    rfl
  have small : (messageSize.toUInt32 - 12).toNat < 2 ^ 16 := by
    have bound : messageSize.toNat < 2 ^ 16 := messageSize.toNat_lt
    omega
  have reads := reads_readAddress.bind fun originatorAddress => reads_readU8.bind fun timeToLive =>
    reads_readU8.bind fun hopCount => reads_readNtohU16.bind fun messageSequenceNumber =>
      (Message.reads_deserialize messageType small).bind fun body =>
        reads_pure (mk vTime originatorAddress timeToLive hopCount messageSequenceNumber body.1, 12 + body.2)
  apply reads.congr
  rintro ⟨header, size⟩ octets
  constructor
  · rintro ⟨originatorAddress, _, _, rfl,
      ⟨timeToLive, _, _, rfl, ⟨hopCount, _, _, rfl, ⟨messageSequenceNumber, _, _, rfl,
      ⟨⟨message, bodySize'⟩, body, _, ⟨rfl, ⟨isType, framed⟩, isLength⟩, ⟨same, rfl⟩, rfl⟩, rfl⟩, rfl⟩, rfl⟩, rfl⟩
    cases same
    refine ⟨?_, rfl, isType, body, framed, by omega, by simp⟩
    rw [add_comm]
    exact UInt32.sub_add_cancel _ _
  · rintro ⟨rfl, rfl, isType, body, framed, isLength, rfl⟩
    refine ⟨header.originatorAddress, _, _, rfl, ⟨header.timeToLive, _, _, rfl, ⟨header.hopCount, _, _, rfl,
      ⟨header.messageSequenceNumber, _, _, rfl, ⟨(header.message, messageSize.toUInt32 - 12), body, [],
        ⟨rfl, ⟨isType, framed⟩, by omega⟩, ⟨?_, rfl⟩, rfl⟩, rfl⟩, rfl⟩, rfl⟩, by simp⟩
    rw [add_comm, UInt32.sub_add_cancel]

theorem reads_deserialize :
    Reads deserialize fun read octets => read.1.Framed octets ∧ read.2 = UInt32.ofNat octets.length := by
  have fields (messageType vTime : UInt8) (messageSize : UInt16) :
      Reads (within (messageSize.toNat - 4) (deserializeFields messageType vTime messageSize)) fun read octets =>
        12 ≤ messageSize.toNat ∧ read.2 = messageSize.toUInt32 ∧ read.1.vTime = vTime ∧
          read.1.message.type = messageType ∧
          ∃ body, read.1.message.Framed body ∧ 12 + body.length = messageSize.toNat ∧
            octets = writeAddress read.1.originatorAddress ++ [read.1.timeToLive, read.1.hopCount] ++
              writeHtonU16 read.1.messageSequenceNumber ++ body := by
    by_cases long : 12 ≤ messageSize.toNat
    · apply ((reads_deserializeFields long).within (messageSize.toNat - 4)).congr
      intro read octets
      constructor
      · rintro ⟨isRead, -⟩
        exact ⟨long, isRead⟩
      · rintro ⟨-, isRead⟩
        refine ⟨isRead, ?_⟩
        obtain ⟨-, -, -, body, -, isLength, rfl⟩ := isRead
        simp only [length_append, length_writeAddress, length_cons, length_nil, length_writeHtonU16]
        omega
    · apply ((needs_deserializeFields messageType vTime messageSize).within_less (by omega)).congr
      exact fun read octets => ⟨False.elim, fun isRead => long isRead.1⟩
  have reads := reads_readU8.bind fun messageType => (reads_check (1 ≤ messageType ∧ messageType ≤ 4)).bind fun _ =>
    reads_readU8.bind fun vTime => reads_readNtohU16.bind fun messageSize => fields messageType vTime messageSize
  apply reads.congr
  rintro ⟨header, size⟩ octets
  constructor
  · rintro ⟨messageType, _, _, rfl, ⟨_, _, _, ⟨-, rfl⟩, ⟨vTime, _, _, rfl, ⟨messageSize, _, _, rfl,
      ⟨-, rfl, rfl, rfl, body, framed, isLength, rfl⟩, rfl⟩, rfl⟩, rfl⟩, rfl⟩
    have isSize : UInt16.ofNat (12 + body.length) = messageSize := by
      rw [isLength, UInt16.ofNat_toNat]
    refine ⟨⟨body, framed, isLength ▸ messageSize.toNat_lt, by simp [isSize]⟩, ?_⟩
    apply UInt32.toNat_inj.1
    have small : messageSize.toNat < 2 ^ 16 := messageSize.toNat_lt
    simp only [UInt16.toNat_toUInt32, length_append, length_writeHtonU16,
      length_writeAddress, length_cons, length_nil, UInt32.toNat_ofNat']
    omega
  · rintro ⟨⟨body, framed, small, rfl⟩, isRemoved⟩
    have isSize : (UInt16.ofNat (12 + body.length)).toNat = 12 + body.length := UInt16.toNat_ofNat_of_lt' small
    refine ⟨header.message.type, _, _, rfl, ⟨.unit, [], _, ⟨header.message.type_range, rfl⟩, ⟨header.vTime, _, _, rfl,
      ⟨UInt16.ofNat (12 + body.length), _, _, rfl, ⟨by omega, ?_, rfl, rfl, body, framed, isSize.symm, rfl⟩, rfl⟩, rfl⟩,
        rfl⟩, by simp⟩
    refine isRemoved.trans ?_
    apply UInt32.toNat_inj.1
    simp only [UInt16.toNat_toUInt32, length_append, length_writeHtonU16,
      length_writeAddress, length_cons, length_nil, UInt32.toNat_ofNat']
    omega

/-! ## Packets -/

theorem LinkMessage.framed_serialize (small : linkMessage.size < 2 ^ 16) : linkMessage.Framed linkMessage.serialize :=
  ⟨small, 0, rfl⟩

theorem LinkMessage.length_frames {linkMessages : List LinkMessage} {frames : List (List UInt8)}
    (framed : List.Forall₂ LinkMessage.Framed linkMessages frames) :
    (linkMessages.map LinkMessage.size).sum = frames.flatten.length := by
  induction framed with
  | nil => rfl
  | cons first _ ih =>
    rw [map_cons, sum_cons, ih, flatten_cons, length_append, first.length_eq]

theorem Message.Framed.getSerializedSize (framed : message.Framed octets) :
    message.getSerializedSize = ofNat octets.length := by
  cases message with
  | hello body =>
    obtain ⟨reserved, frames, all, rfl⟩ := framed
    rw [Message.getSerializedSize, Hello.getSerializedSize, LinkMessage.length_frames all, length_append]
    rfl
  | tc body =>
    obtain ⟨reserved, rfl⟩ := framed
    rw [length_append, length_writeAddresses]
    rfl
  | mid body =>
    cases framed
    rw [Message.getSerializedSize, Mid.getSerializedSize, Mid.serialize, length_writeAddresses]
  | hna body =>
    cases framed
    rw [Hna.serialize, length_writeAssociations]
    refine congrArg ofNat ?_
    omega

theorem MessageHeader.Framed.getSerializedSize (framed : header.Framed octets) :
    header.getSerializedSize = ofNat octets.length ∧ 12 ≤ octets.length ∧ octets.length < 2 ^ 16 := by
  obtain ⟨body, isBody, small, rfl⟩ := framed
  have length : ([header.message.type, header.vTime] ++ writeHtonU16 (UInt16.ofNat (12 + body.length)) ++
      writeAddress header.originatorAddress ++ [header.timeToLive, header.hopCount] ++
        writeHtonU16 header.messageSequenceNumber ++ body).length = 12 + body.length := by
    simp only [length_append, length_writeHtonU16, length_writeAddress, length_cons, length_nil]
  rw [getSerializedSize, isBody.getSerializedSize, length]
  refine ⟨?_, Nat.le_add_right 12 _, small⟩
  rw [ofNat_add]
  rfl

variable {sizeLeft : UInt32} {messages : List MessageHeader}

theorem nothing_received (zero : sizeLeft.toNat = 0) :
    (Except.ok [] : Except Fault (List MessageHeader)) = .ok messages ↔
      ∃ frames tail, List.Forall₂ MessageHeader.Framed messages frames ∧ frames.flatten.length = sizeLeft.toNat ∧
        packet = frames.flatten ++ tail := by
  constructor
  · intro same
    cases same
    exact ⟨[], packet, .nil, zero.symm, rfl⟩
  · rintro ⟨frames, tail, framed, isLength, -⟩
    cases framed with
    | nil => rfl
    | cons first others =>
      have long := first.getSerializedSize.2.1
      rw [flatten_cons, length_append] at isLength
      omega

theorem recvMessages_succ (nonzero : sizeLeft ≠ 0) : recvMessages (rounds + 1) sizeLeft packet = .ok messages ↔
    ∃ header removed next others, deserialize ⟨packet, sizeLeft.toNat⟩ = .ok ((header, removed), next) ∧
      removed ≠ 0 ∧ header.getSerializedSize ≤ sizeLeft ∧
        recvMessages rounds (sizeLeft - header.getSerializedSize) (packet.drop removed.toNat) = .ok others ∧
          messages = header :: others := by
  rw [recvMessages, if_neg nonzero, except_bind_eq_ok]
  constructor
  · rintro ⟨⟨⟨header, removed⟩, next⟩, isRead, isReceived⟩
    dsimp only at isReceived
    split at isReceived
    case isTrue => cases isReceived
    case isFalse some =>
      split at isReceived
      case isTrue => cases isReceived
      case isFalse less =>
        obtain ⟨others, isOthers, same⟩ := except_bind_eq_ok.1 isReceived
        cases same
        exact ⟨header, removed, next, others, isRead, some, UInt32.not_lt.1 less, isOthers, rfl⟩
  · rintro ⟨header, removed, next, others, isRead, some, less, isOthers, rfl⟩
    refine ⟨((header, removed), next), isRead, ?_⟩
    dsimp only
    rw [if_neg some, if_neg (UInt32.not_lt.2 less), except_bind_eq_ok]
    exact ⟨others, isOthers, rfl⟩

theorem recvMessages_eq_ok (enough : sizeLeft.toNat ≤ rounds) : recvMessages rounds sizeLeft packet = .ok messages ↔
    ∃ frames tail, List.Forall₂ MessageHeader.Framed messages frames ∧ frames.flatten.length = sizeLeft.toNat ∧
      packet = frames.flatten ++ tail := by
  induction rounds generalizing sizeLeft packet messages with
  | zero => exact nothing_received (Nat.le_zero.1 enough)
  | succ rounds ih =>
    by_cases zero : sizeLeft = 0
    · rw [recvMessages, if_pos zero]
      exact nothing_received (by rw [zero]; rfl)
    · rw [recvMessages_succ zero]
      constructor
      · rintro ⟨header, removed, next, others, isRead, -, less, isOthers, rfl⟩
        obtain ⟨frame, ⟨framed, rfl⟩, same⟩ := (reads_deserialize _ _ _).1 isRead
        obtain ⟨size, long, small⟩ := framed.getSerializedSize
        injection same with isPacket isLeft
        have frameSize : (UInt32.ofNat frame.length).toNat = frame.length :=
          UInt32.toNat_ofNat_of_lt' (small.trans (by decide))
        have left : (sizeLeft - header.getSerializedSize).toNat = sizeLeft.toNat - frame.length := by
          rw [UInt32.toNat_sub_of_le _ _ less, size, frameSize]
        obtain ⟨frames, tail, all, isLength, isRest⟩ := (ih (by omega)).1 isOthers
        rw [frameSize, isPacket, drop_left] at isRest
        refine ⟨frame :: frames, tail, .cons framed all, ?_, ?_⟩
        · rw [flatten_cons, length_append, isLength, left]
          omega
        · rw [isPacket, isRest, flatten_cons, append_assoc]
      · rintro ⟨frames, tail, all, isLength, rfl⟩
        cases all with
        | nil => exact absurd (UInt32.toNat_inj.1 isLength.symm) zero
        | @cons header frame others frames framed all =>
          obtain ⟨size, long, small⟩ := framed.getSerializedSize
          have frameSize : (UInt32.ofNat frame.length).toNat = frame.length :=
            UInt32.toNat_ofNat_of_lt' (small.trans (by decide))
          rw [flatten_cons, length_append] at isLength
          have less : header.getSerializedSize ≤ sizeLeft := by
            rw [UInt32.le_iff_toNat_le, size]
            omega
          have left : (sizeLeft - header.getSerializedSize).toNat = frames.flatten.length := by
            rw [UInt32.toNat_sub_of_le _ _ less, size]
            omega
          have removes : UInt32.ofNat frame.length ≠ 0 := by
            intro none
            rw [none] at frameSize
            have isZero : (0 : UInt32).toNat = 0 := rfl
            omega
          refine ⟨header, UInt32.ofNat frame.length, ⟨frames.flatten ++ tail, frames.flatten.length⟩, others,
            (reads_deserialize _ _ _).2 ⟨frame, ⟨framed, rfl⟩, ?_⟩, removes, less,
            (ih (by omega)).2 ⟨frames, tail, all, left.symm, ?_⟩, rfl⟩
          · rw [flatten_cons, append_assoc, ← isLength]
          · rw [frameSize, flatten_cons, append_assoc, drop_left]

theorem PacketHeader.reads_deserialize : Reads PacketHeader.deserialize fun read octets =>
    4 ≤ read.1.toNat ∧ octets = writeHtonU16 read.1 ++ writeHtonU16 read.2 := by
  apply (reads_readNtohU16.bind fun packetLength => (reads_readNtohU16.within (packetLength.toNat - 2)).bind
    fun packetSequenceNumber => reads_pure (packetLength, packetSequenceNumber)).congr
  rintro ⟨packetLength, packetSequenceNumber⟩ octets
  constructor
  · rintro ⟨packetLength, _, _, rfl, ⟨packetSequenceNumber, _, _, ⟨rfl, isShort⟩, ⟨same, rfl⟩, rfl⟩, rfl⟩
    cases same
    rw [length_writeHtonU16] at isShort
    have four : 4 ≤ packetLength.toNat := by omega
    exact ⟨four, by rw [append_nil]⟩
  · rintro ⟨four, rfl⟩
    have isShort : (writeHtonU16 packetSequenceNumber).length ≤ packetLength.toNat - 2 := by
      exact Nat.le_sub_of_add_le four
    exact ⟨packetLength, _, _, rfl, ⟨packetSequenceNumber, _, [], ⟨rfl, isShort⟩, ⟨rfl, rfl⟩, rfl⟩, by rw [append_nil]⟩

theorem recvOlsr_eq_ok : recvOlsr packet = .ok messages ↔ Framed messages packet := by
  have sizeLeft {packetLength : UInt16} (four : 4 ≤ packetLength.toNat) :
      (packetLength.toUInt32 - 4).toNat = packetLength.toNat - 4 := by
    have less : 4 ≤ packetLength.toUInt32 := by
      exact four
    rw [UInt32.toNat_sub_of_le _ _ less]
    rfl
  rw [recvOlsr, except_bind_eq_ok]
  constructor
  · rintro ⟨⟨⟨packetLength, packetSequenceNumber⟩, next⟩, isRead, isReceived⟩
    obtain ⟨_, ⟨four, rfl⟩, same⟩ := (PacketHeader.reads_deserialize _ _ _).1 isRead
    injection same with isPacket _
    dsimp only at isReceived
    split at isReceived
    case isTrue => cases isReceived
    case isFalse =>
      obtain ⟨frames, tail, all, isLength, isRest⟩ := (recvMessages_eq_ok (Nat.le_refl _)).1 isReceived
      rw [sizeLeft four] at isLength
      have length : 4 + frames.flatten.length = packetLength.toNat := by
        rw [isLength]
        exact Nat.add_sub_cancel' four
      refine ⟨packetSequenceNumber, frames, tail, all, length ▸ packetLength.toNat_lt, ?_⟩
      rw [length, UInt16.ofNat_toNat, isPacket, isRest, append_assoc _ frames.flatten]
  · rintro ⟨packetSequenceNumber, frames, tail, all, small, rfl⟩
    have isLength : (UInt16.ofNat (4 + frames.flatten.length)).toNat = 4 + frames.flatten.length :=
      UInt16.toNat_ofNat_of_lt' small
    have four : 4 ≤ (UInt16.ofNat (4 + frames.flatten.length)).toNat := by
      rw [isLength]
      exact Nat.le_add_right 4 _
    refine ⟨((UInt16.ofNat (4 + frames.flatten.length), packetSequenceNumber),
      ⟨frames.flatten ++ tail, (frames.flatten ++ tail).length⟩),
      (PacketHeader.reads_deserialize _ _ _).2 ⟨_, ⟨four, rfl⟩, ?_⟩, ?_⟩
    · rw [append_assoc _ frames.flatten, length_append]
    · have notShort : ¬UInt16.ofNat (4 + frames.flatten.length) < 4 := UInt16.not_lt.2 (UInt16.le_iff_toNat_le.2 four)
      dsimp only
      rw [if_neg notShort]
      apply (recvMessages_eq_ok (Nat.le_refl _)).2
      refine ⟨frames, tail, all, ?_, rfl⟩
      rw [sizeLeft four, isLength, Nat.add_sub_cancel_left]

/-! ## What is written -/

theorem LinkMessage.length_serialize (linkMessage : LinkMessage) : linkMessage.serialize.length = linkMessage.size := by
  simp [LinkMessage.serialize, LinkMessage.size]
  omega

/-- A part of what is written is no longer than the whole. -/
theorem length_le_flatMap {Part : Type} {parts : List Part} {part : Part}
    (write : Part -> List UInt8) (mem : part ∈ parts) :
    (write part).length ≤ (parts.flatMap write).length := by
  exact (sublist_flatten_of_mem (mem_map_of_mem mem)).length_le

theorem Message.framed_serialize (small : message.serialize.length < 2 ^ 16) :
    message.Framed message.serialize := by
  cases message with
  | hello body =>
    refine ⟨0, body.linkMessages.map LinkMessage.serialize, ?_, ?_⟩
    · rw [forall₂_map_right_iff, forall₂_same]
      intro linkMessage mem
      have part := length_le_flatMap LinkMessage.serialize mem
      rw [LinkMessage.length_serialize] at part
      have whole : (body.linkMessages.flatMap LinkMessage.serialize).length ≤ body.serialize.length := by
        rw [Hello.serialize, length_append]
        exact Nat.le_add_left _ _
      exact LinkMessage.framed_serialize ((part.trans whole).trans_lt small)
    · rw [Message.serialize, Hello.serialize, flatMap_def]
      rfl
  | tc body => exact ⟨0, rfl⟩
  | mid body => exact rfl
  | hna body => exact rfl

theorem framed_serialize (small : header.serialize.length < 2 ^ 16) : header.Framed header.serialize := by
  have length : header.serialize.length = 12 + header.message.serialize.length := by
    simp only [serialize, length_append, length_writeHtonU16, length_writeAddress, length_cons, length_nil]
  rw [length] at small
  have framed : header.message.Framed header.message.serialize := Message.framed_serialize (by omega)
  have size : header.getSerializedSize.toUInt16 = UInt16.ofNat (12 + header.message.serialize.length) := by
    rw [getSerializedSize, framed.getSerializedSize]
    apply UInt16.toNat_inj.1
    simp
  exact ⟨header.message.serialize, framed, small, by rw [serialize, size]⟩

theorem framed_serializePacket {packetSequenceNumber : UInt16}
    (small : 4 + (messages.flatMap serialize).length < 2 ^ 16) :
    Framed messages (serializePacket packetSequenceNumber messages) := by
  refine ⟨packetSequenceNumber, messages.map serialize, [], ?_, ?_, ?_⟩
  · rw [forall₂_map_right_iff, forall₂_same]
    intro header mem
    have part := length_le_flatMap serialize mem
    exact framed_serialize (by omega)
  · exact flatMap_def ▸ small
  · rw [serializePacket, append_nil, flatMap_def]

/-- A packet whose size fits its length field is read as it was written, and a packet is read to its
end, within what it declares and without a counter that wraps, exactly if it is well framed. -/
theorem packet_codec (packetSequenceNumber : UInt16) (messages : List MessageHeader) (packet : List UInt8) :
    (4 + (messages.flatMap MessageHeader.serialize).length < 2 ^ 16 ->
      recvOlsr (serializePacket packetSequenceNumber messages) = .ok messages) ∧
    ((∃ messages, recvOlsr packet = .ok messages) ↔ WellFramed packet) := by
  refine ⟨fun small => recvOlsr_eq_ok.2 (framed_serializePacket small), ?_⟩
  rw [WellFramed]
  simp only [recvOlsr_eq_ok]

def writtenMessages : List MessageHeader :=
  [⟨7, ⟨2⟩, 1, 0, 1, .hello ⟨5, 3, [⟨6, [⟨1⟩, ⟨4⟩]⟩, ⟨10, []⟩]⟩⟩, ⟨7, ⟨2⟩, 255, 0, 2, .tc ⟨4, [⟨1⟩]⟩⟩]

theorem packet_codec_written : recvOlsr (serializePacket 9 writtenMessages) = .ok writtenMessages :=
  (packet_codec 9 writtenMessages []).1 (by decide +kernel)

/-- A HELLO message with a link message of size `0`, which counts addresses down from `-1`. -/
def sizelessPacket : List UInt8 :=
  [0, 24, 0, 1] ++ [1, 0, 0, 20, 0, 0, 0, 2, 1, 0, 0, 1] ++ [0, 0, 0, 3] ++ [10, 0, 0, 0]

/-- Reading goes past the end of the message. -/
theorem packet_overread : recvOlsr sizelessPacket = .error .pastLength := by
  decide +kernel

end Ns3.Olsr.Protocol
