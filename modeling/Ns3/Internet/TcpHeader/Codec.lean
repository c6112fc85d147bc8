import Ns3.Internet.TcpHeader.Header

/-!
# The TCP header codec

A header that is built is read again as it was, up to an END that pads it. A header that is received
is removed exactly if fewer than four bytes of padding follow its END: `codec_iff`. The size is
computed from the options that were read, and padding is none of them.
-/

namespace Ns3.Internet.TcpHeader

open Network.BufferIterator TcpOption List Option

variable {header : TcpHeader} {options : List TcpOption} {option : TcpOption} {checksum : Checksum}
  {payload rest : List UInt8}

/-- The options in front of an END are well formed and no END themselves. -/
def Proper (options : List TcpOption) : Prop :=
  ∀ option ∈ options, option.WellFormed ∧ option.getKind ≠ 0

/-- The bytes behind the options: an END with padding, if there is one. -/
def endingBytes : Option (List UInt8) -> List UInt8
  | none => []
  | some padding => 0 :: padding

def endingOptions : Option (List UInt8) -> List TcpOption
  | none => []
  | some _ => [endOfList]

theorem length_flatMap (proper : Proper options) : (options.flatMap TcpOption.serialize).length = sizeOf options := by
  induction options with
  | nil => rfl
  | cons option options ih =>
    rw [flatMap_cons, length_append, length_serialize (proper option mem_cons_self).1,
      ih fun other member => proper other (mem_cons_of_mem _ member)]
    rfl

theorem readOptions_spec {ending : Option (List UInt8)} {fuel : Nat} (proper : Proper options)
    (enough : sizeOf options + (endingBytes ending).length < fuel) :
    readOptions fuel (sizeOf options + (endingBytes ending).length)
        (options.flatMap TcpOption.serialize ++ (endingBytes ending ++ rest)) =
      some (options ++ endingOptions ending, sizeOf options + (endingBytes ending).length) := by
  induction options generalizing fuel with
  | nil =>
    cases fuel with
    | zero => exact absurd enough (Nat.not_lt_zero _)
    | succ fuel =>
      cases ending with
      | none => rfl
      | some padding =>
        have isRead : TcpOption.deserialize 0 (0 :: (padding ++ rest)) = some (1, endOfList) := rfl
        have isNext : Network.BufferIterator.next 1 (0 :: (padding ++ rest)) =
          some (padding ++ rest) := if_pos (by simp)
        simp only [sizeOf, map_nil, sum_nil, Nat.zero_add, flatMap_nil, nil_append,
          endingBytes, endingOptions, length_cons, cons_append]
        rw [readOptions, if_neg (Nat.succ_ne_zero _)]
        simp only [head?_cons, bind_some, isRead, TcpOption.getSerializedSize, ne_eq, not_true_eq_false, if_false,
          getKind, if_true, Nat.add_sub_cancel, isNext, next_append, map_some]
        rw [if_pos (Nat.le_add_left _ _)]
  | cons option options ih =>
    obtain ⟨wellFormed, notEnd⟩ := proper option mem_cons_self
    have positive := size_pos wellFormed
    have size : sizeOf (option :: options) = option.getSerializedSize + sizeOf options := rfl
    cases fuel with
    | zero => exact absurd enough (Nat.not_lt_zero _)
    | succ fuel =>
      have further := @ih fuel (fun other member => proper other (mem_cons_of_mem _ member)) (by omega)
      obtain ⟨bytes, isCons⟩ := serialize_eq_cons wellFormed
      have isHead : (option.serialize ++ (options.flatMap TcpOption.serialize ++ (endingBytes ending ++ rest))).head? =
          some option.getKind := by
        rw [isCons]
        rfl
      have isNext : next option.getSerializedSize
          (option.serialize ++ (options.flatMap TcpOption.serialize ++ (endingBytes ending ++ rest))) =
            some (options.flatMap TcpOption.serialize ++ (endingBytes ending ++ rest)) := by
        rw [← length_serialize wellFormed]
        exact next_append
      have left : sizeOf (option :: options) + (endingBytes ending).length - option.getSerializedSize =
          sizeOf options + (endingBytes ending).length := by omega
      rw [flatMap_cons, append_assoc, readOptions, if_neg (by omega), isHead, bind_some,
        deserialize_serialize wellFormed]
      simp only [bind_some, ne_eq, not_true_eq_false, if_false, notEnd, isNext, left, further, map_some]
      rw [if_pos (by omega), size, Nat.add_assoc]
      rfl

/-- The header that is read from these fields, without its options. -/
def readFields (sourcePort destinationPort : UInt16) (sequenceNumber ackNumber : UInt32)
    (field windowSize urgentPointer : UInt16) : TcpHeader where
  sourcePort := sourcePort
  destinationPort := destinationPort
  sequenceNumber := sequenceNumber
  ackNumber := ackNumber
  length := (field >>> 12).toUInt8
  flags := (field &&& 0xff).toUInt8
  windowSize := windowSize
  urgentPointer := urgentPointer

/-- A header with a legal offset is read together with the options that its loop reads. -/
theorem deserialize_fields {sourcePort destinationPort field windowSize urgentPointer : UInt16}
    {sequenceNumber ackNumber : UInt32} {bytes check : List UInt8} {read : List TcpOption × Nat} {optionLen : Nat}
    (isBytes : bytes = writeHtonU16 sourcePort ++ (writeHtonU16 destinationPort ++ (writeHtonU32 sequenceNumber ++
      (writeHtonU32 ackNumber ++ (writeHtonU16 field ++ (writeHtonU16 windowSize ++ (check ++
        (writeHtonU16 urgentPointer ++ rest)))))))) (isCheck : check.length = 2)
    (offset : (field >>> 12).toUInt8.toNat = optionLen / 4 + 5 ∧ optionLen % 4 = 0 ∧ optionLen ≤ 40)
    (isRead : readOptions (optionLen + 1) optionLen rest = some read) :
    ∃ header, deserialize checksum bytes = some (header, header.getSerializedSize) ∧ header =
        { readFields sourcePort destinationPort sequenceNumber ackNumber field windowSize urgentPointer with
          options := read.1
          optionsLen := read.2
          goodChecksum := isGood checksum bytes } := by
  obtain ⟨words, whole, small⟩ := offset
  have skip : ∀ rest, next 2 (check ++ rest) = some rest := fun rest => by
    rw [← isCheck]
    exact next_append
  have size : ((field >>> 12).toUInt8.toNat - 5) * 4 = optionLen := by omega
  have legal : ¬ ((field >>> 12).toUInt8.toNat < 5 ∨ optionLen > maxOptionsLen) := by
    rw [maxOptionsLen]
    omega
  refine ⟨_, ?_, rfl⟩
  rw [deserialize]
  generalize isGood checksum bytes = good
  rw [isBytes]
  simp only [readNtohU16_write, readNtohU32_write, bind_some, skip]
  rw [size, if_neg legal, isRead, map_some]
  rfl

/-- The size that is computed from few options. -/
theorem serializedSize_eq (small : sizeOf header.options ≤ 40) :
    header.getSerializedSize = (20 + sizeOf header.options + 3) / 4 * 4 := by
  have words : ∀ len, len ≤ 60 -> (UInt8.ofNat ((if len % 4 ≠ 0 then len + (4 - len % 4) else len) / 4)).toNat =
      (len + 3) / 4 := by
    intro len atMost
    rw [UInt8.toNat_ofNat_of_lt' (by
      simp only [UInt8.size]
      split <;> omega)]
    split <;> omega
  rw [getSerializedSize, calculateHeaderLength]
  simp only [words _ (show 20 + sizeOf header.options ≤ 60 by omega)]

/-- A header on the wire: the data offset counts its words, and well-formed options fill it, if need
be with an END and padding behind them. -/
structure ReceivedHeader where
  sourcePort : UInt16
  destinationPort : UInt16
  sequenceNumber : UInt32
  ackNumber : UInt32
  /-- The data offset, reserved bits and flags. -/
  field : UInt16
  windowSize : UInt16
  check : UInt16
  urgentPointer : UInt16
  options : List TcpOption
  /-- The padding behind an END, if there is one. -/
  ending : Option (List UInt8)
  proper : Proper options
  filled : (field >>> 12).toUInt8.toNat * 4 = 20 + (sizeOf options + (endingBytes ending).length)

namespace ReceivedHeader

variable (received : ReceivedHeader)

def dataOffset : Nat :=
  (received.field >>> 12).toUInt8.toNat

def bytes : List UInt8 :=
  writeHtonU16 received.sourcePort ++ writeHtonU16 received.destinationPort ++ writeHtonU32 received.sequenceNumber ++
    writeHtonU32 received.ackNumber ++ writeHtonU16 received.field ++ writeHtonU16 received.windowSize ++
    writeHtonU16 received.check ++ writeHtonU16 received.urgentPointer ++
    (received.options.flatMap TcpOption.serialize ++ endingBytes received.ending)

/-- `Deserialize` returns the size of the header, so that `RemoveHeader` leaves the payload. -/
def Removed (checksum : Checksum) (payload : List UInt8) : Prop :=
  ∃ header, deserialize checksum (received.bytes ++ payload) = some (header, 4 * received.dataOffset) ∧
    removeHeader checksum (received.bytes ++ payload) = some (header, payload)

/-- Fewer than four bytes follow the END. -/
def ShortPadding : Prop :=
  ∀ padding, received.ending = some padding -> padding.length < 4

variable {received : ReceivedHeader}

theorem offset_le : received.dataOffset ≤ 15 := by
  have small : received.field.toNat < 2 ^ 16 := received.field.toNat_lt
  have twelve : (12 : UInt16).toNat % 16 = 12 := rfl
  rw [dataOffset, UInt16.toNat_toUInt8, UInt16.toNat_shiftRight, twelve, Nat.shiftRight_eq_div_pow]
  omega

theorem length_bytes : received.bytes.length = 4 * received.dataOffset := by
  have filled := received.filled
  have options := length_flatMap received.proper
  simp only [bytes, length_append, length_writeHtonU16, length_writeHtonU32, options, dataOffset]
  omega

/-- What is read is what was sent, but the size is the size of the options that were read. -/
theorem deserialize_bytes : ∃ header, header.options = received.options ++ endingOptions received.ending ∧
    deserialize checksum (received.bytes ++ payload) = some (header, header.getSerializedSize) := by
  have filled := received.filled
  have atMost : received.dataOffset ≤ 15 := offset_le
  rw [dataOffset] at atMost
  have isRead := @readOptions_spec received.options payload received.ending
    (sizeOf received.options + (endingBytes received.ending).length + 1) received.proper (Nat.lt_succ_self _)
  obtain ⟨header, isHeader, rfl⟩ := @deserialize_fields checksum _ received.sourcePort received.destinationPort
    received.field received.windowSize received.urgentPointer received.sequenceNumber received.ackNumber
    (received.bytes ++ payload) (writeHtonU16 received.check) _ _ (by simp only [bytes, append_assoc]) rfl
    (by omega) isRead
  exact ⟨_, rfl, isHeader⟩

theorem sizeOf_read : sizeOf (received.options ++ endingOptions received.ending) =
    sizeOf received.options + min 1 (endingBytes received.ending).length := by
  rw [sizeOf, map_append, sum_append]
  cases received.ending with
  | none => rfl
  | some padding =>
    simp only [endingOptions, endingBytes, length_cons, Nat.min_eq_left (Nat.le_add_left 1 _)]
    rfl

theorem removed_iff : received.Removed checksum payload ↔ received.ShortPadding := by
  obtain ⟨header, isOptions, isRead⟩ := @deserialize_bytes checksum payload received
  have filled := received.filled
  have atMost : received.dataOffset ≤ 15 := offset_le
  have isOffset : received.dataOffset = (received.field >>> 12).toUInt8.toNat := rfl
  have size : header.getSerializedSize =
      (20 + (sizeOf received.options + min 1 (endingBytes received.ending).length) + 3) / 4 * 4 := by
    rw [serializedSize_eq (by rw [isOptions, sizeOf_read]; omega), isOptions, sizeOf_read]
  have exact_iff : header.getSerializedSize = 4 * received.dataOffset ↔ (endingBytes received.ending).length ≤ 4 := by
    omega
  have short_iff : (endingBytes received.ending).length ≤ 4 ↔ received.ShortPadding := by
    rw [ShortPadding]
    cases received.ending with
    | none => exact iff_of_true (Nat.zero_le 4) fun _ isSome => absurd isSome (some_ne_none _).symm
    | some padding =>
      constructor
      · intro short other isOther
        obtain rfl := some.inj isOther
        exact short
      · intro short
        exact short padding rfl
  rw [← short_iff, ← exact_iff]
  constructor
  · rintro ⟨other, isOther, -⟩
    exact congrArg Prod.snd (some.inj (isRead.symm.trans isOther))
  · intro isExact
    rw [isExact] at isRead
    refine ⟨header, isRead, ?_⟩
    rw [removeHeader, isRead, bind_some, ← length_bytes, next_append]
    rfl

end ReceivedHeader

/-- A header before any option is appended. -/
def fresh (fields : TcpHeader) : TcpHeader :=
  { fields with length := 5, options := [], optionsLen := 0 }

/-- The options of a header that was built are proper and fit, and the length counts them. -/
structure Built (fields header : TcpHeader) : Prop where
  proper : Proper header.options
  optionsLen : header.optionsLen = sizeOf header.options
  fits : sizeOf header.options ≤ 40
  length : header.length.toNat = (23 + sizeOf header.options) / 4
  fields : header = { fields with length := header.length, options := header.options, optionsLen := header.optionsLen }

variable {fields : TcpHeader}

theorem built_fresh : Built fields fields.fresh :=
  ⟨fun _ member => absurd member not_mem_nil, rfl, Nat.zero_le _, show 5 = (23 + 0) / 4 by decide, rfl⟩

/-- A known option that fits is well formed. -/
theorem wellFormed_of_known (isKnown : isKindKnown option.getKind = true) (fits : option.getSerializedSize ≤ 40)
    (notUnknown : ∀ kind size content, option ≠ unknown kind size content) : option.WellFormed := by
  cases option with
  | sack sackList =>
    simp only [TcpOption.getSerializedSize] at fits
    simp only [WellFormed]
    omega
  | unknown kind size content => exact absurd rfl (notUnknown kind size content)
  | _ => trivial

/-- The options that a program may append. -/
def Known (option : TcpOption) : Prop :=
  ∀ kind size content, option ≠ unknown kind size content

theorem Built.appendOption (built : Built fields header) (known : Known option) :
    Built fields (header.appendOption option).2 := by
  rw [TcpHeader.appendOption]
  split
  next fits =>
    split
    next isKnown =>
      split
      next notEnd =>
        rw [built.optionsLen, maxOptionsLen] at fits
        have size : sizeOf (header.options ++ [option]) = sizeOf header.options + option.getSerializedSize := by
          rw [sizeOf, map_append, sum_append]
          rfl
        refine ⟨?_, ?_, ?_, ?_, ?_⟩
        · intro other member
          rcases mem_append.mp member with old | isLast
          · exact built.proper other old
          · obtain rfl := mem_singleton.mp isLast
            exact ⟨wellFormed_of_known isKnown (by omega) known, notEnd⟩
        · simp only [size, built.optionsLen]
        · exact size.trans_le fits
        · simp only [size, built.optionsLen]
          rw [UInt8.toNat_ofNat_of_lt' (by
            simp only [UInt8.size]
            omega)]
        · rw [built.fields]
      · exact built
    · exact built
  · exact built

theorem built_appendOptions (known : ∀ option ∈ options, Known option) :
    Built fields (fields.fresh.appendOptions options) := by
  rw [appendOptions]
  have start : Built fields fields.fresh := built_fresh
  generalize fields.fresh = header at start
  induction options generalizing header with
  | nil => exact start
  | cons option options ih =>
    rw [foldl_cons]
    apply ih fun other member => known other (mem_cons_of_mem _ member)
    exact start.appendOption (known option mem_cons_self)

theorem toNat_field : header.field.toNat = header.length.toNat % 16 * 2 ^ 12 + header.flags.toNat := by
  have isFlags : header.flags.toNat < 2 ^ 12 := Nat.lt_trans header.flags.toNat_lt (by decide)
  have twelve : (12 : UInt16).toNat % 16 = 12 := rfl
  have shifted : header.length.toNat <<< 12 % 2 ^ 16 = (header.length.toNat % 16) <<< 12 := by
    rw [Nat.shiftLeft_eq, Nat.shiftLeft_eq]
    omega
  rw [field, UInt16.toNat_or, UInt16.toNat_shiftLeft, UInt8.toNat_toUInt16, UInt8.toNat_toUInt16, twelve, shifted,
    ← Nat.shiftLeft_add_eq_or_of_lt isFlags, Nat.shiftLeft_eq]

theorem field_length (small : header.length.toNat < 16) : (header.field >>> 12).toUInt8 = header.length := by
  have isFlags : header.flags.toNat < 2 ^ 8 := header.flags.toNat_lt
  have twelve : (12 : UInt16).toNat % 16 = 12 := rfl
  have whole := @toNat_field header
  apply UInt8.toNat_inj.mp
  rw [UInt16.toNat_toUInt8, UInt16.toNat_shiftRight, twelve, Nat.shiftRight_eq_div_pow]
  omega

theorem field_flags : (header.field &&& 0xff).toUInt8 = header.flags := by
  have isFlags : header.flags.toNat < 2 ^ 8 := header.flags.toNat_lt
  have whole := @toNat_field header
  have mask : (0xff : UInt16).toNat = 2 ^ 8 - 1 := rfl
  apply UInt8.toNat_inj.mp
  rw [UInt16.toNat_toUInt8, UInt16.toNat_and, mask, Nat.and_two_pow_sub_one_eq_mod]
  omega

/-- What is read from a header that is written: its fields, its options up to an END, and its size. -/
def RoundTrip (header : TcpHeader) (checksum : Checksum) (payload : List UInt8) : Prop :=
  (header.serialize checksum payload).length = header.getSerializedSize ∧
    ∃ read, deserialize checksum (header.serialize checksum payload ++ payload) =
      some (read, header.getSerializedSize) ∧
      read = { header with
        options := read.options
        optionsLen := read.optionsLen
        goodChecksum := read.goodChecksum } ∧
      (read.options = header.options ∨ read.options = header.options ++ [endOfList])

/-- The END options that pad a header. -/
def paddingEnding (optionLen : Nat) : Option (List UInt8) :=
  if (4 - optionLen % 4) % 4 = 0 then none else some (replicate ((4 - optionLen % 4) % 4 - 1) 0)

theorem padding_eq (optionLen : Nat) : padding optionLen = endingBytes (paddingEnding optionLen) := by
  rw [padding, paddingEnding]
  split
  next none => rw [none]; rfl
  next some =>
    have count : (4 - optionLen % 4) % 4 = (4 - optionLen % 4) % 4 - 1 + 1 := by omega
    rw [count, replicate_succ]
    rfl

theorem Built.roundTrip (built : Built fields header) : header.RoundTrip checksum payload := by
  have fits := built.fits
  have length := built.length
  have pad : (endingBytes (paddingEnding (sizeOf header.options))).length = (4 - sizeOf header.options % 4) % 4 := by
    rw [← padding_eq, padding, length_replicate]
  have size := serializedSize_eq fits
  -- Whatever the checksum is, it takes two bytes.
  obtain ⟨check, isCheck, isWritten⟩ : ∃ check : List UInt8, check.length = 2 ∧
      header.serialize checksum payload = header.beforeChecksum ++ check ++ header.afterChecksum := by
    cases checksum with
    | none => exact ⟨_, rfl, rfl⟩
    | some calculate => exact ⟨_, rfl, rfl⟩
  have isRead := @readOptions_spec header.options payload (paddingEnding (sizeOf header.options))
    (sizeOf header.options + (endingBytes (paddingEnding (sizeOf header.options))).length + 1) built.proper
    (Nat.lt_succ_self _)
  have isLength := @field_length header (by omega)
  obtain ⟨read, isHeader, isThis⟩ := @deserialize_fields checksum _ header.sourcePort header.destinationPort
    header.field header.windowSize header.urgentPointer header.sequenceNumber header.ackNumber
    (header.serialize checksum payload ++ payload) check _ _
    (by simp only [isWritten, beforeChecksum, afterChecksum, padding_eq, append_assoc]) isCheck
    (by rw [isLength]; omega) isRead
  have isOptions : read.options = header.options ++ endingOptions (paddingEnding (sizeOf header.options)) := by
    rw [isThis]
  have sameSize : read.getSerializedSize = header.getSerializedSize := by
    have ending : sizeOf (endingOptions (paddingEnding (sizeOf header.options))) =
        min 1 ((4 - sizeOf header.options % 4) % 4) := by
      rw [← pad]
      cases paddingEnding (sizeOf header.options) with
      | none => rfl
      | some padding => exact (Nat.min_eq_left (Nat.le_add_left 1 _)).symm
    have sum : sizeOf read.options = sizeOf header.options + min 1 ((4 - sizeOf header.options % 4) % 4) := by
      rw [isOptions, ← ending, sizeOf, map_append, sum_append]
      rfl
    rw [serializedSize_eq (by omega), size, sum]
    omega
  refine ⟨?_, read, sameSize ▸ isHeader, ?_, ?_⟩
  · have options := length_flatMap built.proper
    simp only [isWritten, beforeChecksum, afterChecksum, length_append, length_writeHtonU16, length_writeHtonU32,
      options, isCheck, padding, length_replicate, size]
    omega
  · rw [isThis]
    simp only [readFields, isLength, field_flags]
  · rw [isOptions, paddingEnding]
    split
    · exact .inl (append_nil _)
    · exact .inr rfl

/-- A header that is built from known options is read as it was and one that is received is removed,
exactly if the padding of the one that is received is short. -/
theorem codec_iff (fields : TcpHeader) (options : List TcpOption) (received : ReceivedHeader) (checksum : Checksum)
    (payload : List UInt8) (known : ∀ option ∈ options, Known option) :
    (fields.fresh.appendOptions options).RoundTrip checksum payload ∧ received.Removed checksum payload ↔
      received.ShortPadding := by
  rw [ReceivedHeader.removed_iff]
  exact and_iff_right (built_appendOptions known).roundTrip

/-- Seven words, the last two of which are an END and its padding. -/
def endEarly : ReceivedHeader where
  sourcePort := 49153
  destinationPort := 80
  sequenceNumber := 1
  ackNumber := 1
  field := 0x7010
  windowSize := 8192
  check := 0
  urgentPointer := 0
  options := []
  ending := some [0, 0, 0, 0, 0, 0, 0]
  proper := fun _ member => absurd member not_mem_nil
  filled := by decide

/-- One word of padding stays in front of the payload. -/
theorem endEarly_stays : (removeHeader none (endEarly.bytes ++ [1, 2, 3])).map Prod.snd = some [0, 0, 0, 0, 1, 2, 3] ∧
    ¬ endEarly.Removed none [1, 2, 3] := by
  have left : (removeHeader none (endEarly.bytes ++ [1, 2, 3])).map Prod.snd = some [0, 0, 0, 0, 1, 2, 3] := by
    decide +kernel
  refine ⟨left, ?_⟩
  rintro ⟨header, -, isRemoved⟩
  rw [isRemoved] at left
  have same : some ([1, 2, 3] : List UInt8) = some [0, 0, 0, 0, 1, 2, 3] := left
  exact absurd same (by decide)

/-- A SYN without options. -/
def plainSyn : ReceivedHeader :=
  { endEarly with
    field := 0x5002
    ending := none
    filled := by decide }

/-- Seven bytes of options are padded with one END, and a header without options is all removed. -/
theorem codec_segment : (fresh { sourcePort := 49153, flags := 2 }).appendOptions [mss 1460, winScale 7] =
        { sourcePort := 49153, flags := 2, length := 7, options := [mss 1460, winScale 7], optionsLen := 7 } ∧
      ((fresh { sourcePort := 49153, flags := 2 }).appendOptions [mss 1460, winScale 7]).RoundTrip none [1] ∧
      plainSyn.Removed none [1] := by
  refine ⟨by decide, (codec_iff _ _ _ _ _ ?_).mpr ?_⟩
  · simp [Known]
  · intro padding isEnding
    cases isEnding

end Ns3.Internet.TcpHeader
