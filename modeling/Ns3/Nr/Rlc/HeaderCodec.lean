import Ns3.Network.BitField
import Ns3.Nr.Rlc.Header

/-!
# The codec of the RLC headers

The groups of an extension bit and a length indicator and the groups of a NACK are read as they were
written. The segment offset of a data header is not: its high byte is read into its low byte.
-/

namespace Ns3.Nr

open Network.BitField Network.BufferIterator List Option

variable {lengthIndicators : List UInt16} {payload : List UInt8}

theorem toNat_writeU8 (data : Nat) : (writeU8 data).toNat = data % 256 :=
  UInt8.toNat_ofNat'

/-! ## Extension bits and length indicators -/

/-- The extension bits of a header: the one of the fixed part is the first one. -/
def extensionBitsOf : List UInt16 -> List UInt8
  | [] => [dataFieldFollows]
  | _ :: lengthIndicators => eLiFieldsFollows :: extensionBitsOf lengthIndicators

/-- The size of fields of 12 bits in octets. -/
def fieldsLength : Nat -> Nat
  | 0 => 0
  | 1 => 2
  | count + 2 => fieldsLength count + 3

theorem fieldsLength_eq : ∀ count : Nat, fieldsLength count = count + (count + 1) / 2
  | 0 => rfl
  | 1 => rfl
  | count + 2 => by
      rw [fieldsLength, fieldsLength_eq count]
      omega

variable {oddE evenE : UInt8} {oddLi evenLi : UInt16}

theorem dataFieldFollows_bit : dataFieldFollows.toNat < 2 := by
  decide

theorem toNat_oddByte : (writeU8 (oddE.toNat <<< 7 &&& 0x80 ||| oddLi.toNat >>> 4 &&& 0x7F)).toNat =
      oddE.toNat % 2 * 128 + oddLi.toNat / 16 % 128 := by
  rw [toNat_writeU8, and_0x80, and_0x7F, or_eq_add 7 (by omega) (by omega)]
  omega

theorem toNat_middleByte :
    (writeU8 (oddLi.toNat <<< 4 &&& 0xF0 ||| evenE.toNat <<< 3 &&& 0x08 ||| evenLi.toNat >>> 8 &&& 0x07)).toNat =
      oddLi.toNat % 16 * 16 + evenE.toNat % 2 * 8 + evenLi.toNat / 256 % 8 := by
  rw [toNat_writeU8, and_0xF0, and_0x08, and_0x07,
    @or_eq_add (_ * 16) (_ * 8) 4 (by omega) (by omega), or_eq_add 3 (by omega) (by omega)]
  omega

theorem toNat_paddedByte : (writeU8 (oddLi.toNat <<< 4 &&& 0xF0)).toNat = oddLi.toNat % 16 * 16 := by
  rw [toNat_writeU8, and_0xF0]
  omega

theorem toNat_evenByte : (writeU8 (evenLi.toNat &&& 0xFF)).toNat = evenLi.toNat % 256 := by
  rw [toNat_writeU8, and_0xFF]
  omega

variable {byte middle : UInt8}

theorem read_oddE (isByte : byte.toNat = oddE.toNat % 2 * 128 + oddLi.toNat / 16 % 128)
    (bit : oddE.toNat < 2) : UInt8.ofNat ((byte.toNat &&& 0x80) >>> 7) = oddE := by
  apply UInt8.toNat_inj.mp
  rw [UInt8.toNat_ofNat', and_0x80]
  omega

theorem read_oddLi {low : Nat} (isByte : byte.toNat = oddE.toNat % 2 * 128 + oddLi.toNat / 16 % 128)
    (isMiddle : middle.toNat = oddLi.toNat % 16 * 16 + low) (isLow : low < 16) (small : oddLi.toNat < 2048) :
    UInt16.ofNat ((byte.toNat &&& 0x7F) <<< 4 ||| (middle.toNat &&& 0xF0) >>> 4) = oddLi := by
  apply UInt16.toNat_inj.mp
  rw [UInt16.toNat_ofNat', and_0x7F, and_0xF0, or_eq_add 4 (by omega) (by omega)]
  omega

theorem read_evenE {high low : Nat} (isMiddle : middle.toNat = high * 16 + evenE.toNat % 2 * 8 + low)
    (isLow : low < 8) (bit : evenE.toNat < 2) : UInt8.ofNat ((middle.toNat &&& 0x08) >>> 3) = evenE := by
  apply UInt8.toNat_inj.mp
  rw [UInt8.toNat_ofNat', and_0x08]
  omega

theorem read_evenLi {last : UInt8} {high : Nat}
    (isMiddle : middle.toNat = high * 16 + evenE.toNat % 2 * 8 + evenLi.toNat / 256 % 8)
    (isLast : last.toNat = evenLi.toNat % 256) (small : evenLi.toNat < 2048) :
    UInt16.ofNat ((middle.toNat &&& 0x07) <<< 8 ||| last.toNat &&& 0xFF) = evenLi := by
  apply UInt16.toNat_inj.mp
  rw [UInt16.toNat_ofNat', and_0x07, and_0xFF, or_eq_add 8 (by omega) (by omega)]
  omega

theorem deserializeLiFields_pair (odd : oddE = eLiFieldsFollows) (bit : evenE.toNat < 2)
    (small : oddLi.toNat < 2048) (smallEven : evenLi.toNat < 2048) {i : List UInt8} :
    deserializeLiFields (writeU8 (oddE.toNat <<< 7 &&& 0x80 ||| oddLi.toNat >>> 4 &&& 0x7F) ::
        writeU8 (oddLi.toNat <<< 4 &&& 0xF0 ||| evenE.toNat <<< 3 &&& 0x08 ||| evenLi.toNat >>> 8 &&& 0x07) ::
        writeU8 (evenLi.toNat &&& 0xFF) :: i) =
      if evenE = eLiFieldsFollows then
        (deserializeLiFields i).map (LiFields.append ⟨[oddE, evenE], [oddLi, evenLi], 3⟩)
      else some ⟨[oddE, evenE], [oddLi, evenLi], 3⟩ := by
  have oddBit : oddE.toNat < 2 := by
    rw [odd]
    decide
  have isMiddle := @toNat_middleByte evenE oddLi evenLi
  rw [deserializeLiFields, read_oddE toNat_oddByte oddBit,
    read_oddLi toNat_oddByte (isMiddle.trans (Nat.add_assoc _ _ _)) (by omega) small,
      read_evenE isMiddle (by omega) bit,
    read_evenLi isMiddle toNat_evenByte smallEven]
  exact if_pos odd

theorem deserializeLiFields_last (small : oddLi.toNat < 2048) {i : List UInt8} :
    deserializeLiFields (writeU8 (dataFieldFollows.toNat <<< 7 &&& 0x80 ||| oddLi.toNat >>> 4 &&& 0x7F) ::
        writeU8 (oddLi.toNat <<< 4 &&& 0xF0) :: i) = some ⟨[dataFieldFollows], [oddLi], 2⟩ := by
  have isMiddle := @toNat_paddedByte oddLi
  unfold deserializeLiFields
  simp only [read_oddE toNat_oddByte dataFieldFollows_bit,
    read_oddLi toNat_oddByte (isMiddle.trans (Nat.add_zero _).symm) (by omega) small]
  exact if_neg (by decide)

/-- Whatever the number of the fields, they are read as they were written. -/
theorem deserialize_serializeLiFields : ∀ {li : UInt16} {lengthIndicators : List UInt16},
    (∀ other ∈ li :: lengthIndicators, other.toNat < 2048) ->
    deserializeLiFields (serializeLiFields (extensionBitsOf lengthIndicators) (li :: lengthIndicators) ++ payload) =
      some ⟨extensionBitsOf lengthIndicators, li :: lengthIndicators,
        UInt16.ofNat (fieldsLength (lengthIndicators.length + 1))⟩
  | _, [], small => deserializeLiFields_last (small _ mem_cons_self)
  | _, [_], small =>
    deserializeLiFields_pair rfl dataFieldFollows_bit (small _ mem_cons_self)
      (small _ (mem_cons_of_mem _ mem_cons_self))
  | first, second :: third :: lengthIndicators, small => by
      have further := @deserialize_serializeLiFields third lengthIndicators
        (fun li member => small li (mem_cons_of_mem _ (mem_cons_of_mem _ member)))
      have length : fieldsLength ((second :: third :: lengthIndicators).length + 1) =
          3 + fieldsLength (lengthIndicators.length + 1) := Nat.add_comm _ _
      rw [extensionBitsOf, extensionBitsOf, serializeLiFields, cons_append, cons_append, cons_append,
        deserializeLiFields_pair rfl (by decide) (small _ mem_cons_self) (small _ (mem_cons_of_mem _ mem_cons_self)),
        if_pos rfl, further, length, UInt16.ofNat_add]
      rfl

theorem fieldsLength_succ (count : Nat) :
    fieldsLength (count + 1) = fieldsLength count + if count % 2 = 1 then 1 else 2 := by
  rw [fieldsLength_eq, fieldsLength_eq]
  split <;> omega

theorem length_serializeLiFields : ∀ (li : UInt16) (lengthIndicators : List UInt16),
    (serializeLiFields (extensionBitsOf lengthIndicators) (li :: lengthIndicators)).length =
      fieldsLength (lengthIndicators.length + 1)
  | _, [] => rfl
  | _, [_] => rfl
  | first, second :: third :: lengthIndicators => by
      have further := length_serializeLiFields third lengthIndicators
      rw [extensionBitsOf, extensionBitsOf, serializeLiFields, length_cons, length_cons, length_cons, further]
      rfl

theorem length_extensionBitsOf : (extensionBitsOf lengthIndicators).length = lengthIndicators.length + 1 := by
  induction lengthIndicators with
  | nil => rfl
  | cons li lengthIndicators ih => exact congrArg (· + 1) ih

/-! ## The header of the unacknowledged mode -/

variable {sequenceNumber : SequenceNumber10}

theorem read_high {fi e sn rest : Nat} (isByte : byte.toNat = rest * 32 + fi * 8 + e * 4 + sn / 256)
    (framing : fi < 4) (bit : e < 2) (small : sn < 1024) :
    (byte.toNat &&& 0x18) >>> 3 = fi ∧ (byte.toNat &&& 0x04) >>> 2 = e ∧ byte.toNat &&& 0x03 = sn / 256 := by
  rw [and_0x18, and_0x04, and_0x03]
  omega

theorem read_sequenceNumber (n base : SequenceNumber10) :
    base.assign ((n.getValue / 256) <<< 8 ||| (writeU8 (n.getValue &&& 0xFF)).toNat) =
      { n with modulusBase := base.modulusBase } := by
  have small : n.getValue < 1024 := n.value.isLt
  rw [SequenceNumber10.assign, toNat_writeU8, and_0xFF, Nat.shiftLeft_eq, or_eq_add 8 (by omega) (by omega)]
  have whole : n.getValue / 256 * 2 ^ 8 + n.getValue % 256 % 256 = n.getValue := by omega
  rw [whole]
  have same : Fin.ofNat 1024 n.getValue = n.value := Fin.ext (Nat.mod_eq_of_lt small)
  rw [same]

namespace NrRlcHeader

/-- The pushes of a sender: an extension bit in front of each length indicator, and one in front of
the data. -/
def pushFields : List UInt16 -> NrRlcHeader -> NrRlcHeader
  | [], header => header.pushExtensionBit dataFieldFollows
  | li :: lengthIndicators, header =>
    pushFields lengthIndicators ((header.pushExtensionBit eLiFieldsFollows).pushLengthIndicator li)

variable (framingInfo : UInt8)

/-- A header as a sender builds it. -/
def build (sequenceNumber : SequenceNumber10) (lengthIndicators : List UInt16) : NrRlcHeader :=
  (pushFields lengthIndicators ({} : NrRlcHeader)).setSequenceNumber sequenceNumber |>.setFramingInfo framingInfo

/-- The length of a header with so many extension bits. -/
def lengthOf : Nat -> Nat
  | 0 => 0
  | count + 1 => 2 + fieldsLength count

theorem pushExtensionBit_headerLength {header : NrRlcHeader} {extensionBit : UInt8}
    (length : header.headerLength = UInt16.ofNat (lengthOf header.extensionBits.length)) :
    (header.pushExtensionBit extensionBit).headerLength =
      UInt16.ofNat (lengthOf (header.pushExtensionBit extensionBit).extensionBits.length) := by
  have count : (header.extensionBits ++ [extensionBit]).length = header.extensionBits.length + 1 := length_append
  simp only [pushExtensionBit, count, length]
  cases header.extensionBits.length with
  | zero => rfl
  | succ count =>
    rw [if_neg (by omega), lengthOf, lengthOf, fieldsLength_succ]
    by_cases even : count % 2 = 1
    · rw [if_pos (by omega), if_pos even]
      exact (UInt16.ofNat_add _ 1).symm
    · rw [if_neg (by omega), if_neg even]
      exact (UInt16.ofNat_add _ 2).symm

/-- What the pushes leave: the bits in front of the last one say that fields follow. -/
theorem pushFields_spec : ∀ {lengthIndicators : List UInt16} {header : NrRlcHeader},
    header.headerLength = UInt16.ofNat (lengthOf header.extensionBits.length) ->
    pushFields lengthIndicators header = { header with
        headerLength := UInt16.ofNat (lengthOf (header.extensionBits ++ extensionBitsOf lengthIndicators).length)
        extensionBits := header.extensionBits ++ extensionBitsOf lengthIndicators
        lengthIndicators := header.lengthIndicators ++ lengthIndicators }
  | [], header, length => by
      have pushed : (header.pushExtensionBit dataFieldFollows).headerLength =
          UInt16.ofNat (lengthOf (header.extensionBits ++ extensionBitsOf []).length) :=
        pushExtensionBit_headerLength length
      rw [append_nil, ← pushed]
      rfl
  | li :: lengthIndicators, header, length => by
      have pushed := @pushExtensionBit_headerLength header eLiFieldsFollows length
      have further := @pushFields_spec lengthIndicators
        ((header.pushExtensionBit eLiFieldsFollows).pushLengthIndicator li) pushed
      rw [pushFields, further]
      simp only [pushLengthIndicator, pushExtensionBit, extensionBitsOf, append_assoc, singleton_append]

theorem build_eq : build framingInfo sequenceNumber lengthIndicators =
      { headerLength := UInt16.ofNat (2 + fieldsLength lengthIndicators.length)
        framingInfo := framingInfo &&& 0x03
        sequenceNumber := sequenceNumber
        extensionBits := extensionBitsOf lengthIndicators
        lengthIndicators := lengthIndicators } := by
  rw [build, pushFields_spec rfl, nil_append, length_extensionBitsOf]
  rfl

/-- The header is written in as many bytes as it says, and read with its size whatever follows. The
modulus base is no part of it. -/
def RoundTrip (header : NrRlcHeader) (payload : List UInt8) : Prop :=
  ∃ bytes, header.serialize = some bytes ∧ bytes.length = header.getSerializedSize ∧ deserialize (bytes ++ payload) =
      some ({ header with sequenceNumber := .ofValue header.sequenceNumber.getValue }, header.getSerializedSize)

theorem toNat_firstByte {fi e sn : Nat} (framing : fi < 4) (bit : e < 2) (small : sn < 1024) :
    (writeU8 (fi <<< 3 &&& 0x18 ||| e <<< 2 &&& 0x04 ||| sn >>> 8 &&& 0x03)).toNat =
      0 * 32 + fi * 8 + e * 4 + sn / 256 := by
  rw [toNat_writeU8, and_0x18, and_0x04, and_0x03,
    @or_eq_add (_ * 8) (_ * 4) 3 (by omega) (by omega), or_eq_add 2 (by omega) (by omega)]
  omega

/-- What is read of a fixed part. -/
def fixedPart (framingInfo extensionBit : UInt8) (sequenceNumber : SequenceNumber10) : NrRlcHeader where
  headerLength := 2
  framingInfo := framingInfo
  sequenceNumber := .ofValue sequenceNumber.getValue
  extensionBits := [extensionBit]

theorem deserialize_fixedPart {framingInfo extensionBit : UInt8} {i : List UInt8} (framing : framingInfo.toNat < 4)
    (bit : extensionBit.toNat < 2) :
    deserialize (writeU8 (framingInfo.toNat <<< 3 &&& 0x18 ||| extensionBit.toNat <<< 2 &&& 0x04 |||
        sequenceNumber.getValue >>> 8 &&& 0x03) :: writeU8 (sequenceNumber.getValue &&& 0xFF) :: i) =
      if extensionBit = dataFieldFollows then some (fixedPart framingInfo extensionBit sequenceNumber, 2)
      else (deserializeLiFields i).map fun fields =>
        let header := { fixedPart framingInfo extensionBit sequenceNumber with
          headerLength := 2 + fields.headerLength
          extensionBits := extensionBit :: fields.extensionBits
          lengthIndicators := fields.lengthIndicators }
        (header, header.getSerializedSize) := by
  have small : sequenceNumber.getValue < 1024 := sequenceNumber.value.isLt
  obtain ⟨fi, e, high⟩ := read_high (toNat_firstByte framing bit small) framing bit small
  have same : SequenceNumber10.assign (.ofValue 0xfffa) ((sequenceNumber.getValue / 256) <<< 8 |||
      (writeU8 (sequenceNumber.getValue &&& 0xFF)).toNat) = .ofValue sequenceNumber.getValue := by
    rw [read_sequenceNumber, SequenceNumber10.ofValue_getValue]
    rfl
  simp only [deserialize, readU8, bind_some, fi, e, high, same, UInt8.ofNat_toNat]
  rfl

/-- Only the size may be wrong: what is written is read. -/
theorem deserialize_build (small : ∀ li ∈ lengthIndicators, li.toNat < 2048) :
    ∃ bytes, (build framingInfo sequenceNumber lengthIndicators).serialize = some bytes ∧
      bytes.length = 2 + fieldsLength lengthIndicators.length ∧
      deserialize (bytes ++ payload) =
        some ({ build framingInfo sequenceNumber lengthIndicators with
          sequenceNumber := .ofValue sequenceNumber.getValue },
          (build framingInfo sequenceNumber lengthIndicators).getSerializedSize) := by
  have framing : (framingInfo &&& 0x03).toNat < 4 := by
    have masked : (framingInfo &&& 0x03).toNat = framingInfo.toNat % 4 := (UInt8.toNat_and _ _).trans (and_0x03 _)
    omega
  rw [build_eq]
  cases lengthIndicators with
  | nil => exact ⟨_, rfl, rfl, (deserialize_fixedPart framing dataFieldFollows_bit).trans (if_pos rfl)⟩
  | cons li lengthIndicators =>
    have length := length_serializeLiFields li lengthIndicators
    refine ⟨_, rfl, ?_, ?_⟩
    · rw [length_cons, length_cons, length, length_cons]
      omega
    · refine (deserialize_fixedPart framing (by decide)).trans ?_
      refine (congrArg (Option.map _) (deserialize_serializeLiFields small)).trans ?_
      rw [UInt16.ofNat_add]
      rfl

theorem build_roundTrip_iff (small : ∀ li ∈ lengthIndicators, li.toNat < 2048) :
    (build framingInfo sequenceNumber lengthIndicators).RoundTrip payload ↔
      2 + fieldsLength lengthIndicators.length < 65536 := by
  obtain ⟨bytes, isWritten, length, isRead⟩ := @deserialize_build _ payload sequenceNumber framingInfo small
  have size : (build framingInfo sequenceNumber lengthIndicators).getSerializedSize =
      (2 + fieldsLength lengthIndicators.length) % 65536 := by
    rw [build_eq]
    exact UInt16.toNat_ofNat'
  constructor
  · rintro ⟨other, isOther, sameLength, -⟩
    obtain rfl := some.inj (isWritten.symm.trans isOther)
    omega
  · intro fits
    refine ⟨bytes, isWritten, by omega, ?_⟩
    rw [isRead, build_eq]

end NrRlcHeader

/-! ## The data header of the acknowledged mode -/

namespace NrRlcAmHeader

def pushFields : List UInt16 -> NrRlcAmHeader -> NrRlcAmHeader
  | [], header => header.pushExtensionBit dataFieldFollows
  | li :: lengthIndicators, header =>
    pushFields lengthIndicators ((header.pushExtensionBit eLiFieldsFollows).pushLengthIndicator li)

/-- The flags of a data header. -/
structure Flags where
  resegmentationFlag : UInt8
  pollingBit : UInt8
  framingInfo : UInt8
  lastSegmentFlag : UInt8

/-- A data header as a sender builds it. -/
def buildData (flags : Flags) (sequenceNumber : SequenceNumber10) (segmentOffset : UInt16)
    (lengthIndicators : List UInt16) : NrRlcAmHeader :=
  let header := pushFields lengthIndicators (setDataPdu {})
  let header := (header.setSequenceNumber sequenceNumber).setResegmentationFlag flags.resegmentationFlag
  let header := (header.setLastSegmentFlag flags.lastSegmentFlag).setSegmentOffset segmentOffset
  (header.setFramingInfo flags.framingInfo).setPollingBit flags.pollingBit

theorem pushExtensionBit_headerLength {header : NrRlcAmHeader} {extensionBit : UInt8}
    (length : header.headerLength = UInt16.ofNat (4 + fieldsLength (header.extensionBits.length - 1))) :
    (header.pushExtensionBit extensionBit).headerLength =
      UInt16.ofNat (4 + fieldsLength ((header.pushExtensionBit extensionBit).extensionBits.length - 1)) := by
  have count : (header.extensionBits ++ [extensionBit]).length = header.extensionBits.length + 1 := length_append
  simp only [pushExtensionBit, count, length]
  cases header.extensionBits.length with
  | zero => rfl
  | succ count =>
    rw [if_pos (by omega), Nat.add_sub_cancel, Nat.add_sub_cancel, fieldsLength_succ]
    by_cases even : count % 2 = 1
    · rw [if_pos (by omega), if_pos even]
      exact (UInt16.ofNat_add _ 1).symm
    · rw [if_neg (by omega), if_neg even]
      exact (UInt16.ofNat_add _ 2).symm

theorem pushFields_spec : ∀ {lengthIndicators : List UInt16} {header : NrRlcAmHeader},
    header.headerLength = UInt16.ofNat (4 + fieldsLength (header.extensionBits.length - 1)) ->
    pushFields lengthIndicators header = { header with
        headerLength :=
          UInt16.ofNat (4 + fieldsLength ((header.extensionBits ++ extensionBitsOf lengthIndicators).length - 1))
        extensionBits := header.extensionBits ++ extensionBitsOf lengthIndicators
        lengthIndicators := header.lengthIndicators ++ lengthIndicators }
  | [], header, length => by
      have pushed : (header.pushExtensionBit dataFieldFollows).headerLength =
          UInt16.ofNat (4 + fieldsLength ((header.extensionBits ++ extensionBitsOf []).length - 1)) :=
        pushExtensionBit_headerLength length
      rw [append_nil, ← pushed]
      rfl
  | li :: lengthIndicators, header, length => by
      have pushed := @pushExtensionBit_headerLength header eLiFieldsFollows length
      have further := @pushFields_spec lengthIndicators
        ((header.pushExtensionBit eLiFieldsFollows).pushLengthIndicator li) pushed
      rw [pushFields, further]
      simp only [pushLengthIndicator, pushExtensionBit, extensionBitsOf, append_assoc, singleton_append]

variable {flags : Flags} {segmentOffset : UInt16}

theorem buildData_eq : buildData flags sequenceNumber segmentOffset lengthIndicators =
      { headerLength := UInt16.ofNat (4 + fieldsLength lengthIndicators.length)
        dataControlBit := dataPdu
        resegmentationFlag := flags.resegmentationFlag &&& 0x01
        pollingBit := flags.pollingBit &&& 0x01
        framingInfo := flags.framingInfo &&& 0x03
        sequenceNumber := sequenceNumber
        lastSegmentFlag := some (flags.lastSegmentFlag &&& 0x01)
        segmentOffset := segmentOffset &&& 0x7FFF
        extensionBits := extensionBitsOf lengthIndicators
        lengthIndicators := lengthIndicators } := by
  rw [buildData, pushFields_spec rfl]
  simp only [setDataPdu, nil_append, length_extensionBitsOf]
  rfl

variable (header : NrRlcAmHeader)

/-- The header is written in as many bytes as it says, and read with its size whatever follows. The
last offset is computed by the reader of a segment; the modulus base is no part of a header. -/
def RoundTrip (payload : List UInt8) : Prop :=
  ∃ bytes lastOffset, header.serialize = some bytes ∧ bytes.length = header.getSerializedSize ∧
    deserialize (bytes ++ payload) = some ({ header with
        sequenceNumber := .ofValue header.sequenceNumber.getValue
        ackSn := .ofValue header.ackSn.getValue
        lastOffset := lastOffset }, header.getSerializedSize)

theorem toNat_flagsByte {rf p fi e sn : Nat} (reseg : rf < 2) (poll : p < 2) (framing : fi < 4) (bit : e < 2)
    (small : sn < 1024) :
    (writeU8 (dataPdu.toNat <<< 7 &&& 0x80 ||| rf <<< 6 &&& 0x40 ||| p <<< 5 &&& 0x20 ||| fi <<< 3 &&& 0x18 |||
      e <<< 2 &&& 0x04 ||| sn >>> 8 &&& 0x03)).toNat = (4 + rf * 2 + p) * 32 + fi * 8 + e * 4 + sn / 256 := by
  have isData : dataPdu.toNat <<< 7 &&& 0x80 = 128 := by decide
  rw [toNat_writeU8, isData, and_0x40, and_0x20, and_0x18, and_0x04, and_0x03,
    @or_eq_add 128 (_ * 64) 7 (by omega) (by omega), @or_eq_add (_ + _) (_ * 32) 6 (by omega) (by omega),
    @or_eq_add (_ + _) (_ * 8) 5 (by omega) (by omega), @or_eq_add (_ + _) (_ * 4) 3 (by omega) (by omega),
    or_eq_add 2 (by omega) (by omega)]
  omega

variable {rest more low : Nat}

theorem read_flags {rf p : Nat} {byte : UInt8} (isByte : byte.toNat = (4 + rf * 2 + p) * 32 + rest)
    (reseg : rf < 2) (poll : p < 2) (below : rest < 32) :
    (byte.toNat &&& 0x80) >>> 7 = 1 ∧ (byte.toNat &&& 0x40) >>> 6 = rf ∧ (byte.toNat &&& 0x20) >>> 5 = p := by
  rw [and_0x80, and_0x40, and_0x20]
  omega

theorem toNat_offsetByte {lsf so : Nat} (flag : lsf < 2) (small : so < 32768) :
    (writeU8 (lsf <<< 7 &&& 0x80 ||| so >>> 8 &&& 0x7F)).toNat = lsf * 128 + so / 256 := by
  rw [toNat_writeU8, and_0x80, and_0x7F, or_eq_add 7 (by omega) (by omega)]
  omega

/-- What is read of a segment offset. -/
def readOffset (segmentOffset : UInt16) : UInt16 :=
  UInt16.ofNat (segmentOffset.toNat / 256 ||| segmentOffset.toNat % 256)

/-- The bytes of an offset are joined at one place. -/
theorem readOffset_eq_iff (small : segmentOffset.toNat < 32768) :
    readOffset segmentOffset = segmentOffset ↔ segmentOffset.toNat < 256 := by
  have joined : segmentOffset.toNat / 256 ||| segmentOffset.toNat % 256 < 2 ^ 8 :=
    Nat.or_lt_two_pow (by omega) (by omega)
  have isRead : (readOffset segmentOffset).toNat = segmentOffset.toNat / 256 ||| segmentOffset.toNat % 256 :=
    UInt16.toNat_ofNat'.trans (Nat.mod_eq_of_lt (by omega))
  constructor
  · intro same
    rw [same] at isRead
    omega
  · intro oneByte
    apply UInt16.toNat_inj.mp
    rw [isRead, Nat.div_eq_of_lt oneByte, Nat.zero_or, Nat.mod_eq_of_lt oneByte]

theorem read_segmentOffset {lsf : Nat} {byte3 byte4 : UInt8}
    (isByte3 : byte3.toNat = lsf * 128 + segmentOffset.toNat / 256)
    (isByte4 : byte4.toNat = segmentOffset.toNat % 256) (flag : lsf < 2) (small : segmentOffset.toNat < 32768) :
    (byte3.toNat &&& 0x80) >>> 7 = lsf ∧
      UInt16.ofNat (byte3.toNat &&& 0x7F ||| byte4.toNat) = readOffset segmentOffset := by
  have high : byte3.toNat % 128 = segmentOffset.toNat / 256 := by omega
  rw [and_0x80, and_0x7F, high, isByte4]
  exact ⟨by omega, rfl⟩

/-- What is read of the fixed part of a data header. -/
def fixedPart (extensionBit : UInt8) : NrRlcAmHeader where
  headerLength := 4
  dataControlBit := dataPdu
  resegmentationFlag := header.resegmentationFlag
  pollingBit := header.pollingBit
  framingInfo := header.framingInfo
  sequenceNumber := .ofValue header.sequenceNumber.getValue
  lastSegmentFlag := header.lastSegmentFlag
  segmentOffset := readOffset header.segmentOffset
  extensionBits := [extensionBit]

/-- The values of the fields of a data header that the setters leave. -/
structure Masked (header : NrRlcAmHeader) (lastSegmentFlag : UInt8) : Prop where
  resegmentation : header.resegmentationFlag.toNat < 2
  polling : header.pollingBit.toNat < 2
  framing : header.framingInfo.toNat < 4
  isLast : header.lastSegmentFlag = some lastSegmentFlag
  last : lastSegmentFlag.toNat < 2
  offset : header.segmentOffset.toNat < 32768

/-- The last offset that the reader of a segment computes from the size of the packet. -/
def computedLastOffset (size : Nat) (headerLength : UInt16) : UInt16 :=
  if header.resegmentationFlag = segment then readOffset header.segmentOffset + UInt16.ofNat size - headerLength
  else 0xffff

variable {i : List UInt8}

theorem deserialize_fixedPart {header : NrRlcAmHeader} {lastSegmentFlag extensionBit : UInt8} {start : List UInt8}
    (masked : Masked header lastSegmentFlag) (bit : extensionBit.toNat < 2) (isStart : start =
      writeU8 (dataPdu.toNat <<< 7 &&& 0x80 ||| header.resegmentationFlag.toNat <<< 6 &&& 0x40 |||
            header.pollingBit.toNat <<< 5 &&& 0x20 ||| header.framingInfo.toNat <<< 3 &&& 0x18 |||
            extensionBit.toNat <<< 2 &&& 0x04 ||| header.sequenceNumber.getValue >>> 8 &&& 0x03) ::
        writeU8 (header.sequenceNumber.getValue &&& 0xFF) ::
        writeU8 (lastSegmentFlag.toNat <<< 7 &&& 0x80 ||| header.segmentOffset.toNat >>> 8 &&& 0x7F) ::
        writeU8 (header.segmentOffset.toNat &&& 0xFF) :: i) :
    deserialize start =
      if extensionBit = dataFieldFollows then some (header.fixedPart extensionBit, 4)
      else (deserializeLiFields i).map fun fields =>
        let read := { header.fixedPart extensionBit with
          headerLength := 4 + fields.headerLength
          lastOffset := header.computedLastOffset start.length (4 + fields.headerLength)
          extensionBits := extensionBit :: fields.extensionBits
          lengthIndicators := fields.lengthIndicators }
        (read, read.getSerializedSize) := by
  have small : header.sequenceNumber.getValue < 1024 := header.sequenceNumber.value.isLt
  have isByte := toNat_flagsByte masked.resegmentation masked.polling masked.framing bit small
  obtain ⟨fi, e, high⟩ := read_high isByte masked.framing bit small
  obtain ⟨isData, rf, p⟩ := read_flags (isByte.trans (Nat.add_assoc (_ + _) _ _ |>.trans (Nat.add_assoc _ _ _)))
    masked.resegmentation masked.polling (by have framing := masked.framing; omega)
  obtain ⟨lsf, so⟩ := read_segmentOffset (toNat_offsetByte masked.last masked.offset) toNat_evenByte masked.last
    masked.offset
  have same : SequenceNumber10.assign (.ofValue 0xfffa) ((header.sequenceNumber.getValue / 256) <<< 8 |||
      (writeU8 (header.sequenceNumber.getValue &&& 0xFF)).toNat) = .ofValue header.sequenceNumber.getValue := by
    rw [read_sequenceNumber, SequenceNumber10.ofValue_getValue]
    rfl
  subst isStart
  simp only [deserialize, readU8, bind_some, isData, rf, p, fi, e, high, lsf, so, same, UInt8.ofNat_toNat,
    ← masked.isLast]
  exact if_pos (by decide)

theorem toNat_maskedOffset (segmentOffset : UInt16) :
    (segmentOffset &&& 0x7FFF).toNat = segmentOffset.toNat % 32768 :=
  (UInt16.toNat_and _ _).trans (Nat.and_two_pow_sub_one_eq_mod _ 15)

/-- Only the size and the segment offset may be wrong: the other fields are read as they were
written. -/
theorem deserialize_buildData (small : ∀ li ∈ lengthIndicators, li.toNat < 2048) :
    ∃ bytes lastOffset, (buildData flags sequenceNumber segmentOffset lengthIndicators).serialize = some bytes ∧
      bytes.length = 4 + fieldsLength lengthIndicators.length ∧
      deserialize (bytes ++ payload) = some ({ buildData flags sequenceNumber segmentOffset lengthIndicators with
          sequenceNumber := .ofValue sequenceNumber.getValue
          segmentOffset := readOffset (segmentOffset &&& 0x7FFF)
          lastOffset := lastOffset },
          (buildData flags sequenceNumber segmentOffset lengthIndicators).getSerializedSize) := by
  have bit (flag : UInt8) : (flag &&& 0x01).toNat < 2 := by
    have masked : (flag &&& 0x01).toNat = flag.toNat % 2 := (UInt8.toNat_and _ _).trans (and_0x01 _)
    omega
  have masked : Masked (buildData flags sequenceNumber segmentOffset lengthIndicators)
      (flags.lastSegmentFlag &&& 0x01) := by
    refine ⟨bit _, bit _, ?_, rfl, bit _, ?_⟩
    · have masked : (flags.framingInfo &&& 0x03).toNat = flags.framingInfo.toNat % 4 :=
        (UInt8.toNat_and _ _).trans (and_0x03 _)
      exact masked.trans_lt (Nat.mod_lt _ (by decide))
    · exact (toNat_maskedOffset segmentOffset).trans_lt (Nat.mod_lt _ (by decide))
  have isBuilt := @buildData_eq lengthIndicators sequenceNumber flags segmentOffset
  cases lengthIndicators with
  | nil =>
    refine ⟨_, 0xffff, by rw [isBuilt]; rfl, rfl, ?_⟩
    refine (deserialize_fixedPart masked dataFieldFollows_bit (by rw [isBuilt]; rfl)).trans ((if_pos rfl).trans ?_)
    rfl
  | cons li lengthIndicators =>
    have length := length_serializeLiFields li lengthIndicators
    refine ⟨_, ?lastOffset, by rw [isBuilt]; rfl, ?size, ?read⟩
    case size =>
      simp only [length_cons]
      omega
    case read =>
      refine (deserialize_fixedPart masked (by decide : eLiFieldsFollows.toNat < 2) (by rw [isBuilt]; rfl)).trans ?_
      refine (congrArg (Option.map _) (deserialize_serializeLiFields small)).trans ?_
      rw [isBuilt, UInt16.ofNat_add]
      rfl

theorem buildData_roundTrip_iff (small : ∀ li ∈ lengthIndicators, li.toNat < 2048)
    (isOffset : segmentOffset.toNat < 32768) :
    (buildData flags sequenceNumber segmentOffset lengthIndicators).RoundTrip payload ↔
      segmentOffset.toNat < 256 ∧ 4 + fieldsLength lengthIndicators.length < 65536 := by
  obtain ⟨bytes, lastOffset, isWritten, length, isRead⟩ :=
    @deserialize_buildData _ payload sequenceNumber flags segmentOffset small
  have whole : segmentOffset &&& 0x7FFF = segmentOffset :=
    UInt16.toNat_inj.mp ((toNat_maskedOffset _).trans (Nat.mod_eq_of_lt isOffset))
  have size : (buildData flags sequenceNumber segmentOffset lengthIndicators).getSerializedSize =
      (4 + fieldsLength lengthIndicators.length) % 65536 := by
    rw [buildData_eq]
    exact UInt16.toNat_ofNat'
  have offset : (buildData flags sequenceNumber segmentOffset lengthIndicators).segmentOffset = segmentOffset := by
    rw [buildData_eq, whole]
  rw [← readOffset_eq_iff isOffset]
  constructor
  · rintro ⟨other, otherOffset, isOther, sameLength, isSame⟩
    obtain rfl := some.inj (isWritten.symm.trans isOther)
    refine ⟨?_, by omega⟩
    have same := congrArg (fun read => read.1.segmentOffset) (some.inj (isRead.symm.trans isSame))
    rw [whole] at same
    exact same.trans offset
  · rintro ⟨oneByte, fits⟩
    refine ⟨bytes, lastOffset, isWritten, by omega, ?_⟩
    have unset : SequenceNumber10.ofValue (SequenceNumber10.ofValue 0xffff).getValue = .ofValue 0xffff := by decide
    rw [isRead, whole, oneByte, buildData_eq, whole, unset]

/-! ## The STATUS header -/

variable (ackSn : SequenceNumber10)

/-- A STATUS header as a receiver builds it. -/
def buildStatus (nacks : List Nat) : NrRlcAmHeader :=
  (nacks.foldl pushNack (setControlPdu {} statusPdu)).setAckSn ackSn

theorem pushNacks_spec {nacks : List Nat} {header : NrRlcAmHeader}
    (length : header.headerLength = UInt16.ofNat (2 + fieldsLength header.nackSnList.length)) :
    nacks.foldl pushNack header = { header with
        headerLength := UInt16.ofNat (2 + fieldsLength (header.nackSnList ++ nacks).length)
        nackSnList := header.nackSnList ++ nacks } := by
  induction nacks generalizing header with
  | nil => simp only [foldl_nil, append_nil, ← length]
  | cons nack nacks ih =>
    have pushed : (header.pushNack nack).headerLength =
        UInt16.ofNat (2 + fieldsLength (header.pushNack nack).nackSnList.length) := by
      have count : (header.nackSnList ++ [nack]).length = header.nackSnList.length + 1 := length_append
      simp only [pushNack, count, length, fieldsLength_succ]
      by_cases odd : header.nackSnList.length % 2 = 1
      · rw [if_pos (by omega), if_pos odd]
        exact (UInt16.ofNat_add _ 1).symm
      · rw [if_neg (by omega), if_neg odd]
        exact (UInt16.ofNat_add _ 2).symm
    rw [foldl_cons, ih pushed]
    simp only [pushNack, append_assoc, singleton_append]

theorem buildStatus_eq (nacks : List Nat) : buildStatus ackSn nacks =
      { headerLength := UInt16.ofNat (2 + fieldsLength nacks.length)
        dataControlBit := controlPdu
        controlPduType := statusPdu
        ackSn := ackSn
        nackSnList := nacks } := by
  rw [buildStatus, pushNacks_spec rfl]
  rfl

/-! ### The bytes of the NACKs -/

variable {odd even next nack : Nat}

theorem toNat_nackByte : (writeU8 (odd >>> 1 &&& 0xFF)).toNat = odd / 2 % 256 := by
  rw [toNat_writeU8, and_0xFF]
  omega

theorem toNat_oddEnd : (writeU8 (odd <<< 7 &&& 0x80)).toNat = odd % 2 * 128 := by
  rw [toNat_writeU8, and_0x80]
  omega

theorem toNat_oddAndEven :
    (writeU8 (odd <<< 7 &&& 0x80 ||| 0x40 ||| even >>> 5 &&& 0x1F)).toNat = odd % 2 * 128 + 64 + even / 32 % 32 := by
  rw [toNat_writeU8, and_0x80, and_0x1F,
    @or_eq_add (_ * 128) 0x40 7 (by omega) (by omega), or_eq_add 5 (by omega) (by omega)]
  omega

theorem toNat_evenEnd : (writeU8 (even <<< 3 &&& 0xF8)).toNat = even % 32 * 8 := by
  rw [toNat_writeU8, and_0xF8]
  omega

theorem toNat_evenAndNext :
    (writeU8 (even <<< 3 &&& 0xF8 ||| 0x04 ||| next >>> 9 &&& 0x01)).toNat = even % 32 * 8 + 4 + next / 512 % 2 := by
  rw [toNat_writeU8, and_0xF8, and_0x01,
    @or_eq_add (_ * 8) 0x04 3 (by omega) (by omega), or_eq_add 2 (by omega) (by omega)]
  omega

/-- An odd NACK lies in three octets; the last one says whether there is one more. -/
theorem read_oddNack {first middle last : UInt8} (isFirst : first.toNat = rest * 2 + odd / 512)
    (isMiddle : middle.toNat = odd / 2 % 256) (isLast : last.toNat = odd % 2 * 128 + more * 64 + low)
    (small : odd < 1024) (bit : more < 2) (below : low < 64) :
    ((first.toNat &&& 0x01) <<< 9 ||| middle.toNat <<< 1 ||| (last.toNat &&& 0x80) >>> 7) = odd ∧
      (last.toNat &&& 0x40) >>> 6 = more := by
  rw [and_0x01, and_0x80, and_0x40, Nat.shiftLeft_eq, Nat.shiftLeft_eq,
    @or_eq_add (_ * 2 ^ 9) (_ * 2 ^ 1) 9 (by omega) (by omega),
    or_eq_add 1 (by omega) (by omega)]
  omega

theorem read_evenNack {byte nextByte : UInt8} (isByte : byte.toNat = rest * 32 + even / 32)
    (isNext : nextByte.toNat = even % 32 * 8 + more * 4 + low) (small : even < 1024)
    (bit : more < 2) (below : low < 4) :
    ((byte.toNat &&& 0x1F) <<< 5 ||| (nextByte.toNat &&& 0xF8) >>> 3) = even ∧
      (nextByte.toNat &&& 0x04) >>> 2 = more := by
  rw [and_0x1F, and_0xF8, and_0x04, or_eq_add 5 (by omega) (by omega)]
  omega

/-- The octet in front of an even NACK. -/
def oddAndEven (odd even : Nat) : UInt8 :=
  writeU8 (odd <<< 7 &&& 0x80 ||| 0x40 ||| even >>> 5 &&& 0x1F)

theorem read_lastNack (small : even < 1024) :
    deserializeNacks (oddAndEven odd even) (writeU8 (even <<< 3 &&& 0xF8) :: i) = some ([even], 1) := by
  have byte := @toNat_oddAndEven odd even
  have last := @toNat_evenEnd even
  have isByte : (oddAndEven odd even).toNat = (odd % 2 * 4 + 2) * 32 + even / 32 := byte.trans (by omega)
  obtain ⟨isEven, isEnd⟩ := read_evenNack isByte (last.trans (by omega : _ = even % 32 * 8 + 0 * 4 + 0)) small
    (by omega) (by omega)
  unfold deserializeNacks
  simp only [isEven, isEnd]
  exact if_neg (by decide)

theorem read_nacks {lastByte : UInt8}
    (isLast : lastByte.toNat = next % 2 * 128 + more * 64 + low) (small : even < 1024) (smallNext : next < 1024)
    (bit : more < 2) (below : low < 64) :
    deserializeNacks (oddAndEven odd even)
        (writeU8 (even <<< 3 &&& 0xF8 ||| 0x04 ||| next >>> 9 &&& 0x01) :: writeU8
          (next >>> 1 &&& 0xFF) :: lastByte :: i) =
      if more = 1 then (deserializeNacks lastByte i).map fun (nacks, length) => (even :: next :: nacks, 3 + length)
      else some ([even, next], 3) := by
  have byte := @toNat_oddAndEven odd even
  have middle := @toNat_evenAndNext even next
  have isByte : (oddAndEven odd even).toNat = (odd % 2 * 4 + 2) * 32 + even / 32 := byte.trans (by omega)
  obtain ⟨isEven, isMore⟩ := read_evenNack isByte (middle.trans (by omega : _ = even % 32 * 8 + 1 * 4 + next / 512))
    small (by omega) (by omega)
  obtain ⟨isNext, isFurther⟩ := read_oddNack (middle.trans (by omega : _ = (even % 32 * 4 + 2) * 2 + next / 512))
    toNat_nackByte isLast smallNext bit below
  conv_lhs => unfold deserializeNacks
  simp only [isEven, isMore, isNext, isFurther]
  exact if_pos trivial

/-- The NACKs behind the first one are read, wherever the list ends. -/
theorem deserialize_serializeNacks : ∀ {odd even : Nat} {nacks : List Nat},
    (∀ nack ∈ odd :: even :: nacks, nack < 1024) ->
    ∃ bytes, serializeNacks (odd :: even :: nacks) = writeU8 (odd >>> 1 &&& 0xFF) :: oddAndEven odd even :: bytes ∧
      bytes.length = fieldsLength nacks.length + 1 ∧
      deserializeNacks (oddAndEven odd even) (bytes ++ payload) =
        some (even :: nacks, UInt16.ofNat (fieldsLength nacks.length + 1))
  | odd, even, [], small => ⟨_, rfl, rfl, read_lastNack (small even (by simp))⟩
  | odd, even, [third], small =>
    ⟨_, rfl, rfl, (read_nacks ((@toNat_oddEnd third).trans (by omega : _ = third % 2 * 128 + 0 * 64 + 0))
      (small even (by simp)) (small third (by simp)) (by omega) (by omega)).trans (if_neg (by decide))⟩
  | odd, even, third :: further :: nacks, small => by
      have smallFurther : further < 1024 := small further (by simp)
      have isLast := @toNat_oddAndEven third further
      obtain ⟨bytes, isWritten, length, isRead⟩ := @deserialize_serializeNacks third further nacks
        (fun nack member => small nack (mem_cons_of_mem _ (mem_cons_of_mem _ member)))
      refine ⟨writeU8 (even <<< 3 &&& 0xF8 ||| 0x04 ||| third >>> 9 &&& 0x01) :: writeU8 (third >>> 1 &&& 0xFF) ::
        oddAndEven third further :: bytes, by rw [← isWritten]; rfl, ?_, ?_⟩
      · rw [length_cons, length_cons, length_cons, length]
        rfl
      · have sum : fieldsLength (third :: further :: nacks).length + 1 = 3 + (fieldsLength nacks.length + 1) := by
          rw [length_cons, length_cons, fieldsLength]
          omega
        refine (read_nacks (isLast.trans (by omega : _ = third % 2 * 128 + 1 * 64 + further / 32))
          (small even (by simp)) (small third (by simp)) (by omega) (by omega)).trans ((if_pos rfl).trans ?_)
        refine (congrArg (Option.map _) isRead).trans ?_
        rw [sum, UInt16.ofNat_add 3]
        rfl

/-- What is read of a STATUS header, with its NACKs. -/
def statusRead (nacks : List Nat) : NrRlcAmHeader where
  headerLength := UInt16.ofNat (2 + fieldsLength nacks.length)
  dataControlBit := controlPdu
  controlPduType := statusPdu
  ackSn := .ofValue ackSn.getValue
  nackSnList := nacks

theorem toNat_statusByte {ack : Nat} (small : ack < 1024) :
    (writeU8 (controlPdu.toNat <<< 7 &&& 0x80 ||| statusPdu.toNat <<< 4 &&& 0x70 ||| ack >>> 6 &&& 0x0F)).toNat =
      ack / 64 := by
  have isControl : controlPdu.toNat <<< 7 &&& 0x80 ||| statusPdu.toNat <<< 4 &&& 0x70 = 0 := by decide
  rw [toNat_writeU8, isControl, and_0x0F, Nat.zero_or]
  omega

theorem toNat_ackByte (ack : Nat) : (writeU8 (ack <<< 2 &&& 0xFC)).toNat = ack % 64 * 4 := by
  rw [toNat_writeU8, and_0xFC]
  omega

theorem toNat_ackAndNack (ack nack : Nat) :
    (writeU8 (ack <<< 2 &&& 0xFC ||| 0x02 ||| nack >>> 9 &&& 0x01)).toNat = ack % 64 * 4 + 2 + nack / 512 % 2 := by
  rw [toNat_writeU8, and_0xFC, and_0x01,
    @or_eq_add (_ * 4) 0x02 2 (by omega) (by omega), or_eq_add 1 (by omega) (by omega)]
  omega

theorem read_ack {byte1 byte2 : UInt8} (ackSn base : SequenceNumber10)
    (isFirst : byte1.toNat = ackSn.getValue / 64) (isSecond : byte2.toNat = ackSn.getValue % 64 * 4 + more * 2 + low)
    (bit : more < 2) (below : low < 2) :
    (byte1.toNat &&& 0x80) >>> 7 = 0 ∧ (byte1.toNat &&& 0x70) >>> 4 = 0 ∧ (byte2.toNat &&& 0x02) >>> 1 = more ∧
      base.assign ((byte1.toNat &&& 0x0F) <<< 6 ||| (byte2.toNat &&& 0xFC) >>> 2) =
        { ackSn with modulusBase := base.modulusBase } := by
  have small : ackSn.getValue < 1024 := ackSn.value.isLt
  have whole : byte1.toNat % 16 * 2 ^ 6 + byte2.toNat / 4 % 64 * 4 / 2 ^ 2 = ackSn.getValue := by omega
  have same : Fin.ofNat 1024 ackSn.getValue = ackSn.value := Fin.ext (Nat.mod_eq_of_lt small)
  rw [and_0x80, and_0x70, and_0x02, and_0x0F, and_0xFC, Nat.shiftLeft_eq, Nat.shiftRight_eq_div_pow,
    Nat.shiftRight_eq_div_pow, Nat.shiftRight_eq_div_pow, Nat.shiftRight_eq_div_pow,
    or_eq_add 6 (by omega) (by omega), whole, SequenceNumber10.assign, same]
  exact ⟨by omega, by omega, by omega, rfl⟩

theorem deserialize_noNack :
    deserialize (writeU8 (controlPdu.toNat <<< 7 &&& 0x80 ||| statusPdu.toNat <<< 4 &&& 0x70 |||
        ackSn.getValue >>> 6 &&& 0x0F) :: writeU8 (ackSn.getValue <<< 2 &&& 0xFC) :: payload) =
      some (statusRead ackSn [], 2) := by
  have second := toNat_ackByte ackSn.getValue
  obtain ⟨isControl, isStatus, noMore, same⟩ := read_ack ackSn (.ofValue 0xffff) (toNat_statusByte ackSn.value.isLt)
    (second.trans (by omega : _ = ackSn.getValue % 64 * 4 + 0 * 2 + 0)) (by omega) (by omega)
  simp only [deserialize, readU8, bind_some, isControl, isStatus, noMore, same]
  rw [statusRead, SequenceNumber10.ofValue_getValue]
  rfl

theorem deserialize_nack {ackSn : SequenceNumber10} {lastByte : UInt8}
    (isLast : lastByte.toNat = nack % 2 * 128 + more * 64 + low) (small : nack < 1024) (bit : more < 2)
    (below : low < 64) :
    deserialize (writeU8 (controlPdu.toNat <<< 7 &&& 0x80 ||| statusPdu.toNat <<< 4 &&& 0x70 |||
        ackSn.getValue >>> 6 &&& 0x0F) ::
        writeU8 (ackSn.getValue <<< 2 &&& 0xFC ||| 0x02 ||| nack >>> 9 &&& 0x01) :: writeU8 (nack >>> 1 &&& 0xFF) ::
        lastByte :: i) =
      (if more = 1 then deserializeNacks lastByte i else some ([], 0)).map fun (nacks, length) =>
        let read := { statusRead ackSn (nack :: nacks) with headerLength := 4 + length }
        (read, read.getSerializedSize) := by
  have second := toNat_ackAndNack ackSn.getValue nack
  obtain ⟨isControl, isStatus, isMore, same⟩ := read_ack ackSn (.ofValue 0xffff) (toNat_statusByte ackSn.value.isLt)
    (second.trans (by omega : _ = ackSn.getValue % 64 * 4 + 1 * 2 + nack / 512)) (by omega) (by omega)
  obtain ⟨isNack, isFurther⟩ := read_oddNack
    (second.trans (by omega : _ = (ackSn.getValue % 64 * 2 + 1) * 2 + nack / 512)) toNat_nackByte isLast small bit below
  simp only [deserialize, readU8, bind_some, isControl, isStatus, isMore, same, isNack, isFurther, statusRead,
    SequenceNumber10.ofValue_getValue]
  rfl

/-- Only the size may be wrong: what is written is read. -/
theorem deserialize_buildStatus {nacks : List Nat} (small : ∀ nack ∈ nacks, nack < 1024) :
    ∃ bytes, (buildStatus ackSn nacks).serialize = some bytes ∧ bytes.length = 2 + fieldsLength nacks.length ∧
      deserialize (bytes ++ payload) = some (statusRead ackSn nacks, (statusRead ackSn nacks).getSerializedSize) := by
  rw [buildStatus_eq]
  rcases nacks with - | ⟨first, - | ⟨second, nacks⟩⟩
  · exact ⟨_, rfl, rfl, deserialize_noNack ackSn⟩
  · have isLast := @toNat_oddEnd first
    exact ⟨_, rfl, rfl, (deserialize_nack (isLast.trans (by omega : _ = first % 2 * 128 + 0 * 64 + 0))
      (small first (by simp)) (by omega) (by omega)).trans rfl⟩
  · have isLast := @toNat_oddAndEven first second
    have isSmall : second < 1024 := small second (by simp)
    obtain ⟨bytes, isWritten, length, isRead⟩ := @deserialize_serializeNacks payload first second nacks small
    refine ⟨writeU8 (controlPdu.toNat <<< 7 &&& 0x80 ||| statusPdu.toNat <<< 4 &&& 0x70 |||
        ackSn.getValue >>> 6 &&& 0x0F) ::
        writeU8 (ackSn.getValue <<< 2 &&& 0xFC ||| 0x02 ||| first >>> 9 &&& 0x01) :: writeU8 (first >>> 1 &&& 0xFF) ::
        oddAndEven first second :: bytes, ?_, ?_, ?_⟩
    · exact congrArg (fun written => some (_ :: _ :: written)) isWritten
    · simp only [length_cons, length, fieldsLength]
      omega
    · refine (deserialize_nack (isLast.trans (by omega : _ = first % 2 * 128 + 1 * 64 + second / 32))
        (small first (by simp)) (by omega) (by omega)).trans ?_
      refine (congrArg (Option.map _) isRead).trans ?_
      have sum : 2 + fieldsLength (first :: second :: nacks).length = 4 + (fieldsLength nacks.length + 1) := by
        rw [length_cons, length_cons, fieldsLength]
        omega
      rw [statusRead, sum, UInt16.ofNat_add 4]
      rfl

theorem buildStatus_roundTrip_iff {nacks : List Nat} (small : ∀ nack ∈ nacks, nack < 1024) :
    (buildStatus ackSn nacks).RoundTrip payload ↔ 2 + fieldsLength nacks.length < 65536 := by
  obtain ⟨bytes, isWritten, length, isRead⟩ := @deserialize_buildStatus payload ackSn nacks small
  have size : (buildStatus ackSn nacks).getSerializedSize = (2 + fieldsLength nacks.length) % 65536 := by
    rw [buildStatus_eq]
    exact UInt16.toNat_ofNat'
  constructor
  · rintro ⟨other, lastOffset, isOther, sameLength, -⟩
    obtain rfl := some.inj (isWritten.symm.trans isOther)
    omega
  · intro fits
    have unset : SequenceNumber10.ofValue (SequenceNumber10.ofValue 0xfffa).getValue = .ofValue 0xfffa := by decide
    refine ⟨bytes, 0xffff, isWritten, by omega, ?_⟩
    rw [isRead, buildStatus_eq, unset]
    rfl

end NrRlcAmHeader

/-! ## The codecs -/

/-- The three headers are read as they were written exactly if the offset of the segment is a single
byte and the lengths are numbers of 16 bits. -/
theorem headerCodecs_iff (framingInfo : UInt8) (flags : NrRlcAmHeader.Flags) (sequenceNumber ackSn : SequenceNumber10)
    (segmentOffset : UInt16) (umIndicators amIndicators : List UInt16) (nacks : List Nat) (payload : List UInt8)
    (umSmall : ∀ li ∈ umIndicators, li.toNat < 2048) (amSmall : ∀ li ∈ amIndicators, li.toNat < 2048)
    (isOffset : segmentOffset.toNat < 32768) (isNack : ∀ nack ∈ nacks, nack < 1024) :
    (NrRlcHeader.build framingInfo sequenceNumber umIndicators).RoundTrip payload ∧
        (NrRlcAmHeader.buildData flags sequenceNumber segmentOffset amIndicators).RoundTrip payload ∧
        (NrRlcAmHeader.buildStatus ackSn nacks).RoundTrip payload ↔
      segmentOffset.toNat < 256 ∧ 2 + fieldsLength umIndicators.length < 65536 ∧
        4 + fieldsLength amIndicators.length < 65536 ∧ 2 + fieldsLength nacks.length < 65536 := by
  rw [NrRlcHeader.build_roundTrip_iff framingInfo umSmall, NrRlcAmHeader.buildData_roundTrip_iff amSmall isOffset,
    NrRlcAmHeader.buildStatus_roundTrip_iff ackSn isNack]
  constructor
  · rintro ⟨um, ⟨offset, am⟩, status⟩
    exact ⟨offset, um, am, status⟩
  · rintro ⟨offset, um, am, status⟩
    exact ⟨um, ⟨offset, am⟩, status⟩

/-- The segment of a PDU. -/
def segmentFlags : NrRlcAmHeader.Flags where
  resegmentationFlag := NrRlcAmHeader.segment
  pollingBit := 0
  framingInfo := 0
  lastSegmentFlag := 0

/-- An offset of 256 is read as 1. -/
theorem segmentOffset_lost : ((NrRlcAmHeader.buildData segmentFlags (.ofValue 5) 256 []).serialize.bind fun bytes =>
        (NrRlcAmHeader.deserialize bytes).map fun read => read.1.segmentOffset) = some 1 ∧
      ¬ (NrRlcAmHeader.buildData segmentFlags (.ofValue 5) 256 []).RoundTrip [] := by
  refine ⟨by decide, ?_⟩
  rw [NrRlcAmHeader.buildData_roundTrip_iff (by simp) (by decide)]
  decide

/-- Three length indicators, and three NACKs over seven octets. -/
theorem headerCodecs_three : (NrRlcHeader.build 1 (.ofValue 1023) [100, 2047, 1]).RoundTrip [1, 2] ∧
      (NrRlcAmHeader.buildData segmentFlags (.ofValue 1023) 255 [100, 2047, 1]).RoundTrip [1, 2] ∧
      (NrRlcAmHeader.buildStatus (.ofValue 700) [512, 1023, 6]).RoundTrip [1, 2] := by
  apply (headerCodecs_iff 1 segmentFlags _ _ 255 _ _ _ _ _ _ _ _).mpr
  · decide
  · simp
  · simp
  · decide
  · simp

end Ns3.Nr
