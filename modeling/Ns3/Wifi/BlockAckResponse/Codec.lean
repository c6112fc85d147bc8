import Ns3.Network.BitField
import Ns3.Wifi.BlockAckResponse.Header
import Ns3.Wifi.RecipientScoreboard

/-!
# The codec of block acks

A block ack is read as it was written, subfield by subfield, and what was recorded in a subfield is
what it says.
-/

namespace Ns3.Wifi.BlockAckResponse

open Network.BitField Network.BufferIterator UInt16 Nat

variable {rest : List UInt8} {bitmapLen : Nat}

theorem readBitmap_append {bitmap : List UInt8} (length : bitmap.length = bitmapLen) :
    readBytes bitmapLen (bitmap ++ rest) = some (bitmap, rest) :=
  length ▸ readBytes_append

theorem BlockAckType.ofVariant_variant (variant : BlockAckVariant) :
    (BlockAckType.ofVariant variant).variant = variant :=
  rfl

namespace CtrlBAckResponseHeader

variable {header : CtrlBAckResponseHeader} {variant : BlockAckVariant}

/-! ## The control field -/

theorem readAddress_append (addr : Mac48Address) : readAddress (addr.val ++ rest) = some (addr, rest) := by
  have isRead := @readBytes_append rest addr.val
  rw [addr.property] at isRead
  rw [readAddress, isRead]
  exact dif_pos addr.property

/-- The TID is in the control field of all variants but the multi-STA one. -/
def controlTid (header : CtrlBAckResponseHeader) : Nat :=
  if header.baType.variant ≠ .multiSta then header.tidInfo.toNat % 16 else 0

theorem toNat_getBaControl : header.getBaControl.toNat =
    header.baAckPolicy.toNat + variantBits header.baType.variant * 2 + header.controlTid * 4096 := by
  have low : (if header.baAckPolicy then 0x1 else 0) ||| variantBits header.baType.variant <<< 1 =
      header.baAckPolicy.toNat + variantBits header.baType.variant * 2 := by
    cases header.baAckPolicy <;> cases header.baType.variant <;> rfl
  have below : header.baAckPolicy.toNat + variantBits header.baType.variant * 2 < 2 ^ 12 := by
    cases header.baAckPolicy <;> cases header.baType.variant <;> decide
  rw [getBaControl, toNat_ofNat', low, controlTid]
  split
  next single =>
    rw [Nat.or_comm, and_0xF000, or_eq_add 12 (by omega) below]
    omega
  next multi => omega

theorem read_control {word policy bits tid : Nat} (isWord : word = policy + bits * 2 + tid * 4096)
    (isPolicy : policy < 2)
    (isBits : bits < 16) (isTid : tid < 16) :
    word &&& 0x01 = policy ∧ word >>> 1 &&& 0x0f = bits ∧ word >>> 12 &&& 0x0f = tid := by
  rw [and_0x01, and_0x0F, and_0x0F]
  omega

/-- What is read of the control field. -/
def blank (header : CtrlBAckResponseHeader) : CtrlBAckResponseHeader where
  baAckPolicy := header.baAckPolicy
  baType := .ofVariant header.baType.variant
  tidInfo := UInt16.ofNat header.controlTid
  baInfo := (BlockAckType.ofVariant header.baType.variant).bitmapLen.map fun bitmapLen =>
    { bitmap := List.replicate bitmapLen 0 }

theorem setBaControl_getBaControl : make.setBaControl header.getBaControl = some header.blank := by
  have isBits : variantBits header.baType.variant < 16 := by
    cases header.baType.variant <;> decide
  have isTid : header.controlTid < 16 := by
    rw [controlTid]
    split <;> omega
  obtain ⟨policy, bits, tid⟩ := read_control toNat_getBaControl (Bool.toNat_lt _) isBits isTid
  have isPolicy : decide (header.baAckPolicy.toNat = 1) = header.baAckPolicy := by
    cases header.baAckPolicy <;> rfl
  simp only [setBaControl, policy, bits, tid, isPolicy, blank]
  have noTid : header.baType.variant = .multiSta -> header.controlTid = 0 := fun multi => if_neg (not_not.mpr multi)
  cases isVariant : header.baType.variant with
  | multiSta =>
    rw [noTid isVariant]
    rfl
  | _ => rfl

/-! ## The starting sequence control -/

/-- The supported lengths are those of the fragment numbers. -/
theorem bitmapLenOf_fragmentNumber {fragNumber : Nat}
    (isNumber : fragmentNumber variant bitmapLen = some fragNumber)
    (encodes : variant = .compressed ∨ variant = .gcr ∨ variant = .multiSta) :
    bitmapLenOf variant fragNumber = some bitmapLen := by
  rcases encodes with rfl | rfl | rfl
  all_goals
    simp only [fragmentNumber] at isNumber
    split_ifs at isNumber
    all_goals
      subst bitmapLen
      cases isNumber
      rfl

variable {fragNumber : Nat}

theorem fragmentNumber_lt (isNumber : fragmentNumber variant bitmapLen = some fragNumber) :
    fragNumber < 16 := by
  cases variant
  all_goals
    simp only [fragmentNumber] at isNumber
    first
    | split_ifs at isNumber
      all_goals
        cases isNumber
        decide
    | cases isNumber
      decide

/-- The word of a starting sequence number and of a fragment number. -/
theorem read_sequenceControl {startingSeq : UInt16} (isSeq : startingSeq.toNat < 4096)
    (isFragment : fragNumber < 16) :
    (UInt16.ofNat (startingSeq.toNat <<< 4 &&& 0xfff0 ||| fragNumber)).toNat &&& 0x000f = fragNumber ∧
      UInt16.ofNat ((UInt16.ofNat (startingSeq.toNat <<< 4 &&& 0xfff0 ||| fragNumber)).toNat >>> 4 &&& 0x0fff) =
        startingSeq := by
  have isWord : (UInt16.ofNat (startingSeq.toNat <<< 4 &&& 0xfff0 ||| fragNumber)).toNat =
      startingSeq.toNat * 16 + fragNumber := by
    rw [UInt16.toNat_ofNat', and_0xFFF0, or_eq_add 4 (by omega) isFragment]
    omega
  have number : startingSeq.toNat * 16 + fragNumber &&& 0x000f = fragNumber := by
    rw [and_0x0F]
    omega
  refine ⟨isWord ▸ number, UInt16.toNat_inj.mp ?_⟩
  rw [UInt16.toNat_ofNat', and_0x0FFF]
  omega

/-! ## Subfields -/

/-- A subfield with a bitmap of a supported length. -/
structure HasBitmap (variant : BlockAckVariant) (bitmapLen : Nat) (info : BaInfoInstance) : Prop where
  supported : (fragmentNumber variant bitmapLen).isSome
  length : info.bitmap.length = bitmapLen
  isSeq : info.startingSeq.toNat < seqnoSpaceSize

/-- The one subfield of a block ack that is not for several stations. Only a length that is in the
fragment number is free. -/
structure SingleOk (variant : BlockAckVariant) (bitmapLen : Nat) (info : BaInfoInstance) : Prop
    extends HasBitmap variant bitmapLen info where
  notMulti : variant ≠ .multiTid
  isBasic : variant = .basic -> bitmapLen = 128
  isExtended : variant = .extendedCompressed -> bitmapLen = 8

/-- The block acknowledgment context: the only one with a bitmap. -/
def inContext (info : BaInfoInstance) : Bool :=
  !info.ackType && decide (info.tid < 8)

/-- A subfield of a multi-STA block ack has a bitmap exactly in the block acknowledgment context.
For AID 2045, a length of 8 stands for the reserved bytes and the address. -/
def SubfieldOk (bitmapLen : Nat) (info : BaInfoInstance) : Prop :=
  if info.aid11 = 2045 then bitmapLen = 8
  else if inContext info = true then HasBitmap .multiSta bitmapLen info
  else bitmapLen = 0 ∧ info.bitmap = []

/-- The block acks that are built: one subfield, or any number of them for several stations. -/
def WellFormed (header : CtrlBAckResponseHeader) : Prop :=
  if header.baType.variant = .multiSta then List.Forall₂ SubfieldOk header.baType.bitmapLen header.baInfo
  else header.tidInfo.toNat < 16 ∧ ∃ bitmapLen info, header.baType.bitmapLen = [bitmapLen] ∧ header.baInfo = [info] ∧
    SingleOk header.baType.variant bitmapLen info

/-- What there is of a subfield on the air. -/
def transmitted (variant : BlockAckVariant) (info : BaInfoInstance) : BaInfoInstance :=
  match variant with
  | .multiSta =>
    if info.aid11 = 2045 then { aidTidInfo := info.aidTidInfo, address := info.address }
    else if inContext info = true then { info with address := noAddress }
    else { aidTidInfo := info.aidTidInfo }
  | .gcr => { info with aidTidInfo := 0 }
  | _ => { info with aidTidInfo := 0, address := noAddress }

/-- The header as it is on the air. -/
def received (header : CtrlBAckResponseHeader) : CtrlBAckResponseHeader :=
  { header with
    tidInfo := if header.baType.variant = .multiSta then 0 else header.tidInfo
    baInfo := header.baInfo.map (transmitted header.baType.variant) }

/-- As many bytes as the header says are written, and read to the last one. -/
def RoundTrip (header : CtrlBAckResponseHeader) : Prop :=
  ∃ bytes, header.serialize = some bytes ∧ header.getSerializedSize = some bytes.length ∧
    deserialize bytes = some (header.received, bytes.length)

variable {info : BaInfoInstance}

theorem getStartingSequenceControl_spec {index : Nat} (has : HasBitmap header.baType.variant bitmapLen info)
    (isInfo : header.baInfo[index]? = some info) (isLen : header.baType.bitmapLen[index]? = some bitmapLen)
    (some : header.baType.variant = .multiSta -> info.bitmap ≠ []) :
    ∃ fragNumber control, fragmentNumber header.baType.variant bitmapLen = Option.some fragNumber ∧
      header.getStartingSequenceControl index = Option.some control ∧ control.toNat &&& 0x000f = fragNumber ∧
      ofNat (control.toNat >>> 4 &&& 0x0fff) = info.startingSeq := by
  obtain ⟨fragNumber, isNumber⟩ := Option.isSome_iff_exists.mp has.supported
  obtain ⟨isFragment, isSeq⟩ := read_sequenceControl has.isSeq (fragmentNumber_lt isNumber)
  refine ⟨fragNumber, _, isNumber, ?_, isFragment, isSeq⟩
  have notEmpty : ¬ (header.baType.variant = .multiSta ∧ info.bitmap = []) := fun empty => some empty.1 empty.2
  rw [getStartingSequenceControl, isInfo, Option.bind_some, isLen, Option.bind_some, if_neg notEmpty, isNumber]
  rfl

/-! ## One subfield -/

/-- The header behind the starting sequence control of a block ack with one subfield. -/
theorem setStartingSequenceControl_single {control : UInt16}
    (single : SingleOk header.baType.variant bitmapLen info) (notMulti : header.baType.variant ≠ .multiSta)
    (isNumber : fragmentNumber header.baType.variant bitmapLen = some fragNumber)
    (isFragment : control.toNat &&& 0x000f = fragNumber)
    (isSeq : ofNat (control.toNat >>> 4 &&& 0x0fff) = info.startingSeq) :
    header.blank.setStartingSequenceControl control 0 = some { header.blank with
      baType := ⟨header.baType.variant, [bitmapLen]⟩
      baInfo := [{ startingSeq := info.startingSeq, bitmap := List.replicate bitmapLen 0 }] } := by
  have inverse := @bitmapLenOf_fragmentNumber bitmapLen header.baType.variant fragNumber isNumber
  simp only [setStartingSequenceControl, isFragment, isSeq, blank]
  cases sameVariant : header.baType.variant with
  | basic =>
    obtain rfl := single.isBasic sameVariant
    rfl
  | extendedCompressed =>
    obtain rfl := single.isExtended sameVariant
    rfl
  | compressed =>
    rw [sameVariant] at inverse
    simp only [BlockAckType.ofVariant_variant, inverse (.inl rfl)]
    rfl
  | gcr =>
    rw [sameVariant] at inverse
    simp only [BlockAckType.ofVariant_variant, inverse (.inr (.inl rfl))]
    rfl
  | multiTid => exact absurd sameVariant single.notMulti
  | multiSta => exact absurd sameVariant notMulti

theorem roundTrip_single (notMulti : header.baType.variant ≠ .multiSta) (isTid : header.tidInfo.toNat < 16)
    (isLen : header.baType.bitmapLen = [bitmapLen]) (isInfo : header.baInfo = [info])
    (single : SingleOk header.baType.variant bitmapLen info) : header.RoundTrip := by
  obtain ⟨fragNumber, control, isNumber, isControl, isFragment, isSeq⟩ :=
    @getStartingSequenceControl_spec bitmapLen header info 0 single.toHasBitmap (by rw [isInfo]; rfl)
      (by rw [isLen]; rfl) (fun multi => absurd multi notMulti)
  have isSet := setStartingSequenceControl_single single notMulti isNumber isFragment isSeq
  have isBitmap : readBytes bitmapLen info.bitmap = some (info.bitmap, []) := by
    have isRead := @readBitmap_append [] bitmapLen info.bitmap single.length
    rwa [List.append_nil] at isRead
  have readFirst (further : List UInt8) := @readLsbtohU16_write further header.getBaControl
  have readSecond (further : List UInt8) := @readLsbtohU16_write further control
  have isReceived : header.received = { header.blank with
      baType := ⟨header.baType.variant, [bitmapLen]⟩
      baInfo := [transmitted header.baType.variant info] } := by
    have sameTid : UInt16.ofNat header.controlTid = header.tidInfo := by
      rw [controlTid, if_pos notMulti, mod_eq_of_lt isTid, UInt16.ofNat_toNat]
    rw [received, if_neg notMulti, isInfo, ← isLen, ← sameTid]
    rfl
  cases isVariant : header.baType.variant with
  | multiSta => exact absurd isVariant notMulti
  | multiTid => exact absurd isVariant single.notMulti
  | gcr =>
    have isAddress := @readAddress_append info.bitmap info.address
    refine ⟨writeHtolsbU16 header.getBaControl ++
      (writeHtolsbU16 control ++ (info.address.val ++ info.bitmap)), ?_, ?_, ?_⟩
    · simp only [serialize, isVariant, isInfo, List.head?_cons, Option.bind_some, isControl, Option.map_some]
    · simp only [getSerializedSize, isVariant, isLen, List.head?_cons, Option.map_some, List.length_append,
        length_writeHtolsbU16, single.length, info.address.property, add_assoc]
    · have blankVariant : header.blank.baType.variant = .gcr := isVariant
      simp only [deserialize, readFirst, Option.bind_some, setBaControl_getBaControl, blankVariant, readSecond, isSet,
        isAddress, setAddress, deserializeBitmap, List.getElem?_cons_zero, isBitmap]
      rw [isReceived, isVariant]
      rfl
  | basic | compressed | extendedCompressed =>
    refine ⟨writeHtolsbU16 header.getBaControl ++ (writeHtolsbU16 control ++ info.bitmap), ?_, ?_, ?_⟩
    · simp only [serialize, isVariant, isInfo, List.head?_cons, Option.bind_some, isControl, Option.map_some]
    · simp only [getSerializedSize, isVariant, isLen, List.head?_cons, Option.map_some, List.length_append,
        length_writeHtolsbU16, single.length]
    · have blankVariant : header.blank.baType.variant = _ := isVariant
      simp only [deserialize, readFirst, Option.bind_some, setBaControl_getBaControl, blankVariant, readSecond, isSet,
        deserializeBitmap, List.getElem?_cons_zero, isBitmap]
      rw [isReceived, isVariant]
      rfl

/-! ## Subfields of several stations -/

/-- The bytes of a subfield. -/
def subfieldBytes (bitmapLen : Nat) (info : BaInfoInstance) : List UInt8 :=
  writeHtolsbU16 info.aidTidInfo ++
    if info.aid11 = 2045 then writeHtolsbU32 0 ++ info.address.val
    else if inContext info = true then
      writeHtolsbU16 (UInt16.ofNat (info.startingSeq.toNat <<< 4 &&& 0xfff0 |||
        (fragmentNumber .multiSta bitmapLen).getD 0)) ++ info.bitmap
    else []

theorem HasBitmap.ne_nil (has : HasBitmap .multiSta bitmapLen info) : info.bitmap ≠ [] := by
  intro empty
  have none := has.supported
  have zero : bitmapLen = 0 := by rw [← has.length, empty, List.length_nil]
  rw [zero] at none
  exact absurd none (by decide)

theorem serializeSubfield_spec {index : Nat} (multi : header.baType.variant = .multiSta)
    (isInfo : header.baInfo[index]? = some info) (isLen : header.baType.bitmapLen[index]? = some bitmapLen)
    (subfield : SubfieldOk bitmapLen info) :
    header.serializeSubfield index info = some (subfieldBytes bitmapLen info) := by
  rw [SubfieldOk] at subfield
  rw [serializeSubfield, subfieldBytes]
  split at subfield
  next special =>
    rw [if_neg (not_not.mpr special), if_pos special, List.append_assoc]
  next associated =>
    rw [if_pos associated, if_neg associated]
    split at subfield
    next context =>
      obtain ⟨fragNumber, isNumber⟩ := Option.isSome_iff_exists.mp subfield.supported
      have notEmpty := subfield.ne_nil
      rw [if_pos notEmpty, if_pos context, getStartingSequenceControl, isInfo, Option.bind_some,
        isLen, Option.bind_some,
        if_neg (fun empty => notEmpty empty.2), multi, isNumber, Option.getD_some, Option.map_some, Option.map_some,
        List.append_assoc]
    next without =>
      rw [if_neg (not_not.mpr subfield.2), if_neg without, List.append_nil]

theorem length_subfieldBytes (subfield : SubfieldOk bitmapLen info) :
    (subfieldBytes bitmapLen info).length = 2 + (if bitmapLen > 0 then 2 else 0) + bitmapLen := by
  rw [SubfieldOk] at subfield
  rw [subfieldBytes]
  split at subfield
  next special =>
    rw [if_pos special, subfield, List.length_append, List.length_append, info.address.property]
    rfl
  next associated =>
    rw [if_neg associated]
    split at subfield
    next context =>
      have pos : bitmapLen > 0 := by
        rw [← subfield.length]
        exact List.length_pos_of_ne_nil subfield.ne_nil
      rw [if_pos context, if_pos pos, List.length_append, List.length_append, subfield.length,
        length_writeHtolsbU16, length_writeHtolsbU16, add_assoc]
    next without =>
      rw [if_neg without, subfield.1]
      rfl

/-- The header with one more subfield. -/
def push (header : CtrlBAckResponseHeader) (bitmapLen : Nat) (info : BaInfoInstance) : CtrlBAckResponseHeader :=
  { header with
    baInfo := header.baInfo ++ [info]
    baType := ⟨header.baType.variant, header.baType.bitmapLen ++ [bitmapLen]⟩ }

theorem modify_push {f : BaInfoInstance -> BaInfoInstance} {infos : List BaInfoInstance} :
    (infos ++ [info]).modify infos.length f = infos ++ [f info] := by
  induction infos with
  | nil => rfl
  | cons first infos ih => exact congrArg (first :: ·) ih

theorem set_push {lens : List Nat} {index : Nat} (isIndex : lens.length = index) :
    (lens ++ [0]).set index bitmapLen = lens ++ [bitmapLen] := by
  rw [List.set_append_right _ _ (Nat.le_of_eq isIndex), isIndex, Nat.sub_self]
  rfl

/-- The control and the bitmap of a subfield that has just been added. -/
theorem readBitmap_spec {read : CtrlBAckResponseHeader} (multi : read.baType.variant = .multiSta)
    (sameLength : read.baType.bitmapLen.length = read.baInfo.length) (has : HasBitmap .multiSta bitmapLen info) :
    ∃ sized, (read.push 0 { aidTidInfo := info.aidTidInfo }).setStartingSequenceControl
        (ofNat (info.startingSeq.toNat <<< 4 &&& 0xfff0 ||| (fragmentNumber .multiSta bitmapLen).getD 0))
        read.baInfo.length = some sized ∧
      sized.deserializeBitmap read.baInfo.length (info.bitmap ++ rest) =
        some (read.push bitmapLen { info with address := noAddress }, rest) := by
  obtain ⟨fragNumber, isNumber⟩ := Option.isSome_iff_exists.mp has.supported
  obtain ⟨isFragment, isSeq⟩ := read_sequenceControl has.isSeq (fragmentNumber_lt isNumber)
  have isLen := bitmapLenOf_fragmentNumber isNumber (.inr (.inr rfl))
  have isLast : (read.baType.bitmapLen ++ [bitmapLen])[read.baInfo.length]? = some bitmapLen := by
    rw [← sameLength, List.getElem?_concat_length]
  refine ⟨read.push bitmapLen
    { aidTidInfo := info.aidTidInfo, startingSeq := info.startingSeq, bitmap := List.replicate bitmapLen 0 }, ?_, ?_⟩
  · simp only [setStartingSequenceControl, push, multi, isNumber, Option.getD_some, isFragment, isSeq, isLen,
      Option.map_some, modify_push, set_push sameLength]
  · simp only [deserializeBitmap, push, isLast, Option.bind_some, readBitmap_append has.length, Option.map_some,
      setBitmap, modify_push]

theorem deserializeSubfield_spec {read : CtrlBAckResponseHeader} (multi : read.baType.variant = .multiSta)
    (sameLength : read.baType.bitmapLen.length = read.baInfo.length) (subfield : SubfieldOk bitmapLen info) :
    read.deserializeSubfield read.baInfo.length (subfieldBytes bitmapLen info ++ rest) =
      some (read.push bitmapLen (transmitted .multiSta info), rest) := by
  have sameAid : ({ aidTidInfo := info.aidTidInfo } : BaInfoInstance).aid11 = info.aid11 := rfl
  have sameContext : (!({ aidTidInfo := info.aidTidInfo } : BaInfoInstance).ackType &&
      decide (({ aidTidInfo := info.aidTidInfo } : BaInfoInstance).tid < 8)) = inContext info := rfl
  rw [SubfieldOk] at subfield
  rw [deserializeSubfield, subfieldBytes, transmitted, List.append_assoc, readLsbtohU16_write, Option.bind_some]
  simp only [sameAid, sameContext]
  split at subfield
  next special =>
    have isRead (further : List UInt8) : readLsbtohU32 (writeHtolsbU32 0 ++ further) = some (_, further) := rfl
    simp only [special, ne_eq, not_true_eq_false, if_false, if_true, List.append_assoc, isRead, Option.bind_some,
      readAddress_append, Option.map_some, setAddress, modify_push, set_push sameLength, push, subfield]
  next associated =>
    rw [if_pos associated, if_neg associated, if_neg associated]
    split at subfield
    next context =>
      obtain ⟨sized, isSized, isRead⟩ := @readBitmap_spec rest bitmapLen info read multi sameLength subfield
      rw [if_pos context, if_pos context, if_pos context, List.append_assoc, readLsbtohU16_write]
      exact (congrArg (Option.bind · _) isSized).trans isRead
    next without =>
      rw [if_neg without, if_neg without, if_neg without, List.nil_append, push, subfield.1]

/-! ## The loops over the subfields -/

variable {lens : List Nat} {infos : List BaInfoInstance}

/-- The bytes of all subfields. -/
def subfieldsBytes (lens : List Nat) (infos : List BaInfoInstance) : List UInt8 :=
  (List.zipWith subfieldBytes lens infos).flatten

theorem getElem?_length {Entry : Type} {front back : List Entry} {entry : Entry} :
    (front ++ entry :: back)[front.length]? = some entry := by
  rw [List.getElem?_append_right (Nat.le_refl _), Nat.sub_self]
  rfl

theorem serializeSubfields_spec {before : List Nat} {front : List BaInfoInstance}
    (multi : header.baType.variant = .multiSta) (wellFormed : List.Forall₂ SubfieldOk lens infos)
    (sameLength : before.length = front.length) (isLens : header.baType.bitmapLen = before ++ lens)
    (isInfos : header.baInfo = front ++ infos) :
    header.serializeSubfields front.length infos = some (subfieldsBytes lens infos) := by
  induction wellFormed generalizing before front with
  | nil => rfl
  | @cons bitmapLen info lens infos subfield _ ih =>
    have isInfo : header.baInfo[front.length]? = some info := by
      rw [isInfos]
      exact getElem?_length
    have isLen : header.baType.bitmapLen[front.length]? = some bitmapLen := by
      rw [isLens, ← sameLength]
      exact getElem?_length
    have further := @ih (before ++ [bitmapLen]) (front ++ [info]) (by simp only [List.length_append, sameLength]; rfl)
      (by rw [isLens, List.append_assoc]; rfl) (by rw [isInfos, List.append_assoc]; rfl)
    rw [List.length_append] at further
    rw [serializeSubfields, serializeSubfield_spec multi isInfo isLen subfield]
    exact (congrArg (Option.map _) further).trans rfl

/-- The loop reads every subfield, and stops where nothing remains. -/
theorem deserializeSubfields_spec {fuel : Nat} {read : CtrlBAckResponseHeader} (multi : read.baType.variant = .multiSta)
    (sameLength : read.baType.bitmapLen.length = read.baInfo.length)
    (wellFormed : List.Forall₂ SubfieldOk lens infos) (enough : infos.length ≤ fuel) :
    deserializeSubfields fuel read read.baInfo.length (subfieldsBytes lens infos) = some { read with
      baType := ⟨.multiSta, read.baType.bitmapLen ++ lens⟩
      baInfo := read.baInfo ++ infos.map (transmitted .multiSta) } := by
  induction wellFormed generalizing fuel read with
  | nil =>
    rw [List.map_nil, List.append_nil, List.append_nil, ← multi]
    cases fuel <;> rfl
  | @cons bitmapLen info lens infos subfield _ ih =>
    obtain ⟨fuel, rfl⟩ : ∃ less, fuel = less + 1 := Nat.exists_eq_add_of_le' (Nat.le_trans (Nat.le_add_left 1 _) enough)
    have isRound := @deserializeSubfield_spec (subfieldsBytes lens infos) bitmapLen info read multi sameLength subfield
    have further := @ih fuel (read.push bitmapLen (transmitted .multiSta info)) multi
      (by simp only [push, List.length_append, sameLength]; rfl) (Nat.le_of_succ_le_succ enough)
    have length : (read.push bitmapLen (transmitted .multiSta info)).baInfo.length = read.baInfo.length + 1 :=
      List.length_append
    rw [length] at further
    have isBytes : subfieldsBytes (bitmapLen :: lens) (info :: infos) =
        subfieldBytes bitmapLen info ++ subfieldsBytes lens infos := rfl
    have unfolded : deserializeSubfields (fuel + 1) read read.baInfo.length
        (subfieldBytes bitmapLen info ++ subfieldsBytes lens infos) =
          (read.deserializeSubfield read.baInfo.length (subfieldBytes bitmapLen info ++ subfieldsBytes lens infos)).bind
            fun round => deserializeSubfields fuel round.1 (read.baInfo.length + 1) round.2 := rfl
    rw [isBytes, unfolded, isRound, Option.bind_some, further]
    simp only [push, List.map_cons, List.append_assoc, List.singleton_append]

theorem length_subfieldsBytes (wellFormed : List.Forall₂ SubfieldOk lens infos) : (subfieldsBytes lens infos).length =
    (lens.map fun bitmapLen => 2 + (if bitmapLen > 0 then 2 else 0) + bitmapLen).sum := by
  induction wellFormed with
  | nil => rfl
  | @cons bitmapLen info lens infos subfield _ ih =>
    rw [List.map_cons, List.sum_cons, ← ih, ← length_subfieldBytes subfield]
    exact List.length_append

theorem length_le_subfieldsBytes (wellFormed : List.Forall₂ SubfieldOk lens infos) :
    infos.length ≤ (subfieldsBytes lens infos).length := by
  induction wellFormed with
  | nil => exact le_refl _
  | @cons bitmapLen info lens infos subfield _ ih =>
    have length : (subfieldsBytes (bitmapLen :: lens) (info :: infos)).length =
        (subfieldBytes bitmapLen info).length + (subfieldsBytes lens infos).length := List.length_append
    rw [length, length_subfieldBytes subfield, List.length_cons]
    omega

theorem roundTrip_multi (multi : header.baType.variant = .multiSta)
    (wellFormed : List.Forall₂ SubfieldOk header.baType.bitmapLen header.baInfo) : header.RoundTrip := by
  have isWritten := @serializeSubfields_spec header _ _ [] [] multi wellFormed rfl rfl rfl
  have length := length_subfieldsBytes wellFormed
  have readFirst := @readLsbtohU16_write (subfieldsBytes header.baType.bitmapLen header.baInfo) header.getBaControl
  refine ⟨writeHtolsbU16 header.getBaControl ++ subfieldsBytes header.baType.bitmapLen header.baInfo, ?_, ?_, ?_⟩
  · simp only [serialize, multi]
    exact (congrArg (Option.map _) isWritten).trans rfl
  · simp only [getSerializedSize, multi, List.length_append, length_writeHtolsbU16, length]
  · have isBlank : header.blank =
        { baAckPolicy := header.baAckPolicy, baType := ⟨.multiSta, []⟩, tidInfo := 0, baInfo := [] } := by
      rw [blank, controlTid, multi]
      rfl
    have isRead := @deserializeSubfields_spec _ _ _ header.blank (by rw [isBlank]) (by rw [isBlank]; rfl) wellFormed
      (length_le_subfieldsBytes wellFormed)
    rw [isBlank] at isRead
    simp only [deserialize, readFirst, Option.bind_some, setBaControl_getBaControl, isBlank]
    refine (congrArg (Option.map _) isRead).trans ?_
    rw [received, if_pos multi, ← multi]
    rfl

theorem WellFormed.roundTrip (wellFormed : header.WellFormed) : header.RoundTrip := by
  rw [WellFormed] at wellFormed
  split at wellFormed
  next multi => exact roundTrip_multi multi wellFormed
  next single =>
    obtain ⟨isTid, bitmapLen, info, isLen, isInfo, isSingle⟩ := wellFormed
    exact roundTrip_single single isTid isLen isInfo isSingle

/-! ## What is recorded -/

variable {index : Nat} {bitmap : List UInt8} {seq other : Nat}

/-- What a subfield says with a bitmap. -/
def viewOf (variant : BlockAckVariant) (bitmapLen : Nat) (info : BaInfoInstance) : Wifi.CtrlBAckResponseHeader where
  variant := variant
  bitmapLen := bitmapLen
  startingSeq := info.startingSeq.toNat
  bitmap := info.bitmap

theorem viewAt_eq (isInfo : header.baInfo[index]? = some info)
    (isLen : header.baType.bitmapLen[index]? = some bitmapLen) :
    header.viewAt index = some (viewOf header.baType.variant bitmapLen info) := by
  rw [viewAt, isInfo, isLen]
  rfl

theorem setBitmap_info (isInfo : header.baInfo[index]? = some info) :
    (header.setBitmap index bitmap).baInfo[index]? = some { info with bitmap := bitmap } := by
  rw [setBitmap, List.getElem?_modify_eq, isInfo]
  rfl

theorem setBitmap_setBitmap {further : List UInt8} :
    (header.setBitmap index bitmap).setBitmap index further = header.setBitmap index further := by
  simp only [setBitmap, List.modify_modify_eq]
  rfl

theorem setBitmap_self (isInfo : header.baInfo[index]? = some info) : header.setBitmap index info.bitmap = header := by
  have same : header.baInfo.modify index (fun other => { other with bitmap := info.bitmap }) = header.baInfo := by
    apply List.ext_getElem?
    intro place
    rw [List.getElem?_modify]
    by_cases here : index = place
    · rw [← here, isInfo]
      simp only [if_true, Option.map_eq_map, Option.map_some]
    · simp only [here, if_false, Option.map_eq_map, Option.map_id']
  rw [setBitmap, same]

/-- Only the bitmap is changed by a packet. -/
theorem setReceivedPacket_view {view : Wifi.CtrlBAckResponseHeader} :
    view.setReceivedPacket seq = { view with bitmap := (view.setReceivedPacket seq).bitmap } ∧
      (view.setReceivedPacket seq).bitmap.length = view.bitmap.length := by
  rw [Wifi.CtrlBAckResponseHeader.setReceivedPacket]
  split
  · exact ⟨rfl, List.length_modify _ _ _⟩
  · exact ⟨rfl, rfl⟩

section

variable (isInfo : header.baInfo[index]? = some info)
include isInfo

section

variable (isLen : header.baType.bitmapLen[index]? = some bitmapLen)
include isLen

section

variable (length : info.bitmap.length = bitmapLen)
include length

section

variable (isStart : info.startingSeq.toNat < seqnoSpaceSize)
include isStart

section

variable (notTid : header.baType.variant ≠ .multiTid)
include notTid

theorem setReceivedPacket_spec
    (isSeq : seq < seqnoSpaceSize) :
    ∃ bitmap, header.setReceivedPacket seq index = some (header.setBitmap index bitmap) ∧ bitmap.length = bitmapLen ∧
      (header.baType.variant ≠ .basic -> ∀ other, other < seqnoSpaceSize ->
        (viewOf header.baType.variant bitmapLen info).isInBitmap other = true ->
        (viewOf header.baType.variant bitmapLen { info with bitmap := bitmap }).bitOf other =
          (decide (other = seq) || (viewOf header.baType.variant bitmapLen info).bitOf other)) := by
  have others : ∃ bitmap,
      some (header.setBitmap index ((viewOf header.baType.variant bitmapLen info).setReceivedPacket seq).bitmap) =
        some (header.setBitmap index bitmap) ∧ bitmap.length = bitmapLen ∧
      (header.baType.variant ≠ .basic -> ∀ other, other < seqnoSpaceSize ->
        (viewOf header.baType.variant bitmapLen info).isInBitmap other = true ->
        (viewOf header.baType.variant bitmapLen { info with bitmap := bitmap }).bitOf other =
          (decide (other = seq) || (viewOf header.baType.variant bitmapLen info).bitOf other)) := by
    obtain ⟨isView, sameLength⟩ := @setReceivedPacket_view seq (viewOf header.baType.variant bitmapLen info)
    refine ⟨_, rfl, sameLength.trans length, ?_⟩
    rintro - other isOther inBitmap
    have bits := Wifi.CtrlBAckResponseHeader.setReceivedPacket_spec isSeq isStart length isOther inBitmap
    rw [isView] at bits
    exact bits
  rw [setReceivedPacket, viewAt_eq isInfo isLen]
  cases isVariant : header.baType.variant with
  | multiTid => exact absurd isVariant notTid
  | basic =>
    by_cases inside : distance seq (viewOf .basic bitmapLen info).startingSeq <
        (viewOf .basic bitmapLen info).bitmapLen * 8 % 65536 / 16
    · exact ⟨_, if_pos inside, (List.length_modify _ _ _).trans length, fun notBasic => absurd rfl notBasic⟩
    · refine ⟨info.bitmap, (if_neg inside).trans ?_, length, fun notBasic => absurd rfl notBasic⟩
      rw [setBitmap_self isInfo]
  | _ =>
    rw [isVariant] at others
    exact others

/-- The loop that records packets. -/
def recordAll (header : CtrlBAckResponseHeader) (index : Nat) (seqs : List Nat) : Option CtrlBAckResponseHeader :=
  seqs.foldlM (fun header seq => header.setReceivedPacket seq index) header

theorem recordAll_spec {seqs : List Nat}
    (areSeqs : ∀ seq ∈ seqs, seq < seqnoSpaceSize) :
    ∃ bitmap, header.recordAll index seqs = some (header.setBitmap index bitmap) ∧ bitmap.length = bitmapLen ∧
      (header.baType.variant ≠ .basic -> ∀ other, other < seqnoSpaceSize ->
        (viewOf header.baType.variant bitmapLen info).isInBitmap other = true ->
        (viewOf header.baType.variant bitmapLen { info with bitmap := bitmap }).bitOf other =
          (decide (other ∈ seqs) || (viewOf header.baType.variant bitmapLen info).bitOf other)) := by
  induction seqs generalizing header info with
  | nil => exact ⟨info.bitmap, congrArg some (setBitmap_self isInfo).symm, length, fun _ _ _ _ => by simp⟩
  | cons seq seqs ih =>
    obtain ⟨first, isFirst, firstLength, firstBits⟩ := setReceivedPacket_spec isInfo isLen length isStart notTid
      (areSeqs seq List.mem_cons_self)
    obtain ⟨bitmap, isAll, isLength, bits⟩ := @ih (header.setBitmap index first) _ (setBitmap_info isInfo) isLen
      firstLength isStart notTid (fun seq mem => areSeqs seq (List.mem_cons_of_mem _ mem))
    refine ⟨bitmap, ?_, isLength, ?_⟩
    · rw [recordAll, List.foldlM_cons, isFirst]
      exact isAll.trans (congrArg some setBitmap_setBitmap)
    · intro notBasic other isOther inBitmap
      refine (bits notBasic other isOther inBitmap).trans ?_
      refine (congrArg (decide (other ∈ seqs) || ·) (firstBits notBasic other isOther inBitmap)).trans ?_
      have mem : decide (other ∈ seq :: seqs) = (decide (other ∈ seqs) || decide (other = seq)) := by
        rw [← Bool.decide_or]
        exact decide_eq_decide.mpr (List.mem_cons.trans or_comm)
      rw [mem, Bool.or_assoc]

/-- The all-ack context. -/
def isAllAck (variant : BlockAckVariant) (info : BaInfoInstance) : Bool :=
  variant = .multiSta && info.ackType && decide (info.tid = 14)

theorem isPacketReceived_spec
    (isSeq : seq < seqnoSpaceSize) :
    header.isPacketReceived seq index = some (isAllAck header.baType.variant info ||
      (decide (header.baType.variant ≠ .basic) && ((viewOf header.baType.variant bitmapLen info).isInBitmap seq &&
        (viewOf header.baType.variant bitmapLen info).bitOf seq))) := by
  have allAck : (header.baType.variant = .multiSta ∧ info.ackType = true ∧ info.tid = 14) ↔
      isAllAck header.baType.variant info = true := by
    simp only [isAllAck, Bool.and_eq_true, decide_eq_true_eq, and_assoc]
  have others : (if (viewOf header.baType.variant bitmapLen info).isInBitmap seq = true then
        (viewOf header.baType.variant bitmapLen info).bitmap[
            (viewOf header.baType.variant bitmapLen info).indexInBitmap seq / 8]?.map fun byte =>
          decide (byte &&& 1 <<< UInt8.ofNat ((viewOf header.baType.variant bitmapLen info).indexInBitmap seq % 8) ≠ 0)
      else some false) = some ((viewOf header.baType.variant bitmapLen info).isInBitmap seq &&
        (viewOf header.baType.variant bitmapLen info).bitOf seq) := by
    by_cases inBitmap : (viewOf header.baType.variant bitmapLen info).isInBitmap seq = true
    · have inside := Wifi.CtrlBAckResponseHeader.index_lt isSeq isStart inBitmap
      obtain ⟨byte, isByte⟩ : ∃ byte, (viewOf header.baType.variant bitmapLen info).bitmap[
          (viewOf header.baType.variant bitmapLen info).indexInBitmap seq / 8]? = some byte :=
        ⟨_, List.getElem?_eq_getElem (lt_of_lt_of_eq inside length.symm)⟩
      rw [inBitmap, Wifi.CtrlBAckResponseHeader.bitOf, isByte]
      rfl
    · rw [if_neg inBitmap, Bool.eq_false_iff.mpr inBitmap, Bool.false_and]
  rw [isPacketReceived, isInfo, Option.bind_some]
  by_cases isAll : isAllAck header.baType.variant info = true
  · rw [if_pos (allAck.mpr isAll), isAll, Bool.true_or]
  · rw [if_neg (fun holds => isAll (allAck.mp holds)), viewAt_eq isInfo isLen, Option.bind_some,
      Bool.eq_false_iff.mpr isAll, Bool.false_or]
    cases isVariant : header.baType.variant with
    | multiTid => exact absurd isVariant notTid
    | basic => rfl
    | _ =>
      exact others

end

end

end

end

end

/-! ## The header that is read -/

/-- A subfield that is on the air, but for the bitmap of a station that is not associated. -/
structure Readable (variant : BlockAckVariant) (bitmapLen : Nat) (info : BaInfoInstance) : Prop where
  length : info.bitmap.length = bitmapLen
  small : bitmapLen ≤ 128
  isStart : info.startingSeq.toNat < seqnoSpaceSize
  notSpecial : variant = .multiSta -> info.aid11 ≠ 2045
  context : variant = .multiSta -> inContext info = false -> bitmapLen = 0

/-- What a subfield says is what it says on the air. -/
theorem transmitted_tells (readable : Readable variant bitmapLen info) :
    (transmitted variant info).bitmap.length = bitmapLen ∧
      (transmitted variant info).startingSeq.toNat < seqnoSpaceSize ∧
      isAllAck variant (transmitted variant info) = isAllAck variant info ∧
      ((viewOf variant bitmapLen (transmitted variant info)).isInBitmap seq &&
          (viewOf variant bitmapLen (transmitted variant info)).bitOf seq) =
        ((viewOf variant bitmapLen info).isInBitmap seq && (viewOf variant bitmapLen info).bitOf seq) := by
  cases variant with
  | multiSta =>
    rw [transmitted, if_neg (readable.notSpecial rfl)]
    split
    next context => exact ⟨readable.length, readable.isStart, rfl, rfl⟩
    next without =>
      have none := readable.context rfl (Bool.eq_false_iff.mpr without)
      have notIn (other : BaInfoInstance) : (viewOf .multiSta bitmapLen other).isInBitmap seq = false := by
        rw [none]
        exact decide_eq_false (not_lt_zero _)
      rw [notIn, notIn]
      exact ⟨none.symm, show (0 : UInt16).toNat < seqnoSpaceSize by decide, rfl, rfl⟩
  | _ => exact ⟨readable.length, readable.isStart, rfl, rfl⟩

theorem received_isPacketReceived (isInfo : header.baInfo[index]? = some info)
    (isLen : header.baType.bitmapLen[index]? = some bitmapLen)
    (readable : Readable header.baType.variant bitmapLen info)
    (notTid : header.baType.variant ≠ .multiTid) (isSeq : seq < seqnoSpaceSize) :
    header.received.isPacketReceived seq index = header.isPacketReceived seq index := by
  obtain ⟨length, isStart, sameAck, sameBit⟩ := @transmitted_tells bitmapLen header.baType.variant info seq readable
  have isRead : header.received.baInfo[index]? = some (transmitted header.baType.variant info) := by
    rw [received, List.getElem?_map, isInfo]
    rfl
  rw [isPacketReceived_spec isInfo isLen readable.length readable.isStart notTid isSeq,
    @isPacketReceived_spec bitmapLen header.received _ index seq isRead isLen length isStart notTid isSeq]
  exact congrArg some (congr (congrArg or sameAck) (congrArg _ sameBit))

theorem subfieldOk_setBitmap (subfield : SubfieldOk bitmapLen info) (length : bitmap.length = bitmapLen) :
    SubfieldOk bitmapLen { info with bitmap := bitmap } := by
  rw [SubfieldOk] at subfield ⊢
  split at subfield
  next special => exact (if_pos special).mpr subfield
  next associated =>
    refine (if_neg associated).mpr ?_
    split at subfield
    next context => exact (if_pos context).mpr ⟨subfield.supported, length, subfield.isSeq⟩
    next without =>
      exact (if_neg without).mpr ⟨subfield.1, List.eq_nil_of_length_eq_zero (length.trans subfield.1)⟩

theorem forall₂_modify {f : BaInfoInstance -> BaInfoInstance} (wellFormed : List.Forall₂ SubfieldOk lens infos)
    (keeps : ∀ bitmapLen info, lens[index]? = some bitmapLen -> infos[index]? = some info ->
      SubfieldOk bitmapLen info ->
      SubfieldOk bitmapLen (f info)) : List.Forall₂ SubfieldOk lens (infos.modify index f) := by
  induction wellFormed generalizing index with
  | nil =>
    rw [List.modify_nil]
    exact .nil
  | @cons bitmapLen info lens infos subfield further ih =>
    cases index with
    | zero => exact .cons (keeps bitmapLen info rfl rfl subfield) further
    | succ index => exact .cons subfield (ih keeps)

theorem WellFormed.setBitmap (wellFormed : header.WellFormed) (isLen : header.baType.bitmapLen[index]? = some bitmapLen)
    (length : bitmap.length = bitmapLen) : (header.setBitmap index bitmap).WellFormed := by
  rw [WellFormed] at wellFormed ⊢
  have sameVariant : (header.setBitmap index bitmap).baType = header.baType := rfl
  rw [sameVariant]
  split
  next multi =>
    rw [if_pos multi] at wellFormed
    apply forall₂_modify wellFormed
    intro other info isOther _ subfield
    cases isOther.symm.trans isLen
    exact subfieldOk_setBitmap subfield length
  next notMulti =>
    rw [if_neg notMulti] at wellFormed
    obtain ⟨isTid, other, info, isOther, isInfo, single⟩ := wellFormed
    rw [isOther] at isLen
    cases index with
    | zero =>
      cases isLen
      refine ⟨isTid, _, { info with bitmap := bitmap }, isOther, ?_, ⟨⟨single.supported, length, single.isSeq⟩,
        single.notMulti, single.isBasic, single.isExtended⟩⟩
      rw [CtrlBAckResponseHeader.setBitmap, isInfo]
      rfl
    | succ index => exact absurd isLen (by simp)

theorem HasBitmap.small (has : HasBitmap variant bitmapLen info)
    (encodes : variant = .compressed ∨ variant = .gcr ∨ variant = .multiSta) : bitmapLen ≤ 128 := by
  have supported := has.supported
  rcases encodes with rfl | rfl | rfl
  all_goals
    simp only [fragmentNumber] at supported
    split_ifs at supported
    all_goals first | omega | exact absurd supported (by decide)

theorem SingleOk.small (single : SingleOk variant bitmapLen info) (notMulti : variant ≠ .multiSta) :
    bitmapLen ≤ 128 := by
  cases variant with
  | basic => exact le_of_eq (single.isBasic rfl)
  | extendedCompressed => exact (single.isExtended rfl).trans_le (by decide)
  | compressed => exact single.toHasBitmap.small (.inl rfl)
  | gcr => exact single.toHasBitmap.small (.inr (.inl rfl))
  | multiTid => exact absurd rfl single.notMulti
  | multiSta => exact absurd rfl notMulti

theorem forall₂_getElem? (wellFormed : List.Forall₂ SubfieldOk lens infos) (isLen : lens[index]? = some bitmapLen)
    (isInfo : infos[index]? = some info) : SubfieldOk bitmapLen info := by
  induction wellFormed generalizing index with
  | nil => exact absurd isLen (by simp)
  | cons subfield _ ih =>
    cases index with
    | zero =>
      cases isLen
      cases isInfo
      exact subfield
    | succ index => exact ih isLen isInfo

theorem WellFormed.readable (wellFormed : header.WellFormed) (isInfo : header.baInfo[index]? = some info)
    (isLen : header.baType.bitmapLen[index]? = some bitmapLen)
    (notSpecial : header.baType.variant = .multiSta -> info.aid11 ≠ 2045)
    (isStart : info.startingSeq.toNat < seqnoSpaceSize) :
    header.baType.variant ≠ .multiTid ∧ Readable header.baType.variant bitmapLen info := by
  rw [WellFormed] at wellFormed
  split at wellFormed
  next multi =>
    have subfield := forall₂_getElem? wellFormed isLen isInfo
    have notTid : header.baType.variant ≠ .multiTid := by
      rw [multi]
      decide
    rw [SubfieldOk, if_neg (notSpecial multi)] at subfield
    split at subfield
    next context =>
      exact ⟨notTid, subfield.length, subfield.small (.inr (.inr rfl)), isStart, notSpecial,
        fun _ none => absurd (none.symm.trans context) (by decide)⟩
    next without =>
      obtain ⟨rfl, empty⟩ := subfield
      exact ⟨notTid, by rw [empty]; rfl, zero_le _, isStart, notSpecial, fun _ _ => rfl⟩
  next notMulti =>
    obtain ⟨-, other, otherInfo, isOther, isOtherInfo, single⟩ := wellFormed
    rw [isOther] at isLen
    rw [isOtherInfo] at isInfo
    cases index with
    | zero =>
      cases isLen
      cases isInfo
      exact ⟨single.notMulti, single.length, single.small notMulti, isStart, notSpecial,
        fun multi => absurd multi notMulti⟩
    | succ index => exact absurd isLen (by simp)

/-! ## The codec -/

/-- What a subfield acknowledges of the packets that were recorded in it: everything in the all-ack
context, nothing in the basic variant, and otherwise the packets in front of the end of the bitmap.
-/
def acknowledges (variant : BlockAckVariant) (bitmapLen : Nat) (info : BaInfoInstance) (seqs : List Nat) (seq : Nat) :
    Bool :=
  isAllAck variant info ||
    (decide (variant ≠ .basic) && decide (seq ∈ seqs ∧ distance seq info.startingSeq.toNat < bitmapLen * 8))

theorem bit_recorded {seqs : List Nat} (readable : Readable variant bitmapLen info)
    (isBlank : info.bitmap = List.replicate bitmapLen 0)
    (bits : (viewOf variant bitmapLen info).isInBitmap seq = true ->
      (viewOf variant bitmapLen { info with bitmap := bitmap }).bitOf seq =
        (decide (seq ∈ seqs) || (viewOf variant bitmapLen info).bitOf seq)) :
    ((viewOf variant bitmapLen { info with bitmap := bitmap }).isInBitmap seq &&
        (viewOf variant bitmapLen { info with bitmap := bitmap }).bitOf seq) =
      decide (seq ∈ seqs ∧ distance seq info.startingSeq.toNat < bitmapLen * 8) := by
  have small := readable.small
  have inBitmap : (viewOf variant bitmapLen info).isInBitmap seq =
      decide (distance seq info.startingSeq.toNat < bitmapLen * 8) := by
    have size : bitmapLen * 8 % 65536 = bitmapLen * 8 := mod_eq_of_lt (by omega)
    exact congrArg (fun bound => decide (distance seq info.startingSeq.toNat < bound)) size
  have blank : (viewOf variant bitmapLen info).bitOf seq = false := by
    have isReset : viewOf variant bitmapLen info = (viewOf variant bitmapLen info).resetBitmap := by
      rw [viewOf, isBlank]
      rfl
    rw [isReset]
    exact Wifi.CtrlBAckResponseHeader.bitOf_resetBitmap
  have sameRange : (viewOf variant bitmapLen { info with bitmap := bitmap }).isInBitmap seq =
      (viewOf variant bitmapLen info).isInBitmap seq := rfl
  rw [blank, Bool.or_false] at bits
  rw [sameRange, Bool.decide_and, Bool.and_comm (decide (seq ∈ seqs)), ← inBitmap]
  by_cases inside : (viewOf variant bitmapLen info).isInBitmap seq = true
  · rw [inside, bits inside]
  · rw [Bool.eq_false_iff.mpr inside, Bool.false_and, Bool.false_and]

/-- A block ack that is supported is read as it is on the air, and every subfield says there what
was recorded in it. -/
theorem responseCodec (header : CtrlBAckResponseHeader) (wellFormed : header.WellFormed) :
    header.RoundTrip ∧ ∀ (index : Nat) (info : BaInfoInstance) (bitmapLen : Nat) (seqs : List Nat),
      header.baInfo[index]? = some info -> header.baType.bitmapLen[index]? = some bitmapLen ->
      info.bitmap = List.replicate bitmapLen 0 -> info.startingSeq.toNat < seqnoSpaceSize ->
      (header.baType.variant = .multiSta -> info.aid11 ≠ 2045) -> (∀ seq ∈ seqs, seq < seqnoSpaceSize) ->
      ∃ recorded, header.recordAll index seqs = some recorded ∧ recorded.RoundTrip ∧ ∀ seq, seq < seqnoSpaceSize ->
          recorded.isPacketReceived seq index = some (acknowledges header.baType.variant bitmapLen info seqs seq) ∧
            recorded.received.isPacketReceived seq index =
              some (acknowledges header.baType.variant bitmapLen info seqs seq) := by
  refine ⟨wellFormed.roundTrip, ?_⟩
  intro index info bitmapLen seqs isInfo isLen isBlank isStart notSpecial areSeqs
  obtain ⟨notTid, readable⟩ := wellFormed.readable isInfo isLen notSpecial isStart
  obtain ⟨bitmap, isRecorded, length, bits⟩ := recordAll_spec isInfo isLen readable.length isStart notTid areSeqs
  refine ⟨_, isRecorded, (wellFormed.setBitmap isLen length).roundTrip, ?_⟩
  intro seq isSeq
  have isNow := @setBitmap_info header info index bitmap isInfo
  have now : Readable header.baType.variant bitmapLen { info with bitmap := bitmap } :=
    ⟨length, readable.small, isStart, notSpecial, readable.context⟩
  have told : (header.setBitmap index bitmap).isPacketReceived seq index =
      some (acknowledges header.baType.variant bitmapLen info seqs seq) := by
    rw [@isPacketReceived_spec bitmapLen (header.setBitmap index bitmap) _ index seq isNow isLen length isStart notTid
      isSeq]
    by_cases basic : header.baType.variant = .basic
    · have sameVariant : (header.setBitmap index bitmap).baType.variant = .basic := basic
      rw [sameVariant, basic]
      rfl
    · exact congrArg (fun bit => some (_ || (_ && bit))) (bit_recorded readable isBlank (bits basic seq isSeq))
  rw [@received_isPacketReceived bitmapLen (header.setBitmap index bitmap) _ index seq isNow isLen now notTid isSeq]
  exact ⟨told, told⟩

/-- A block ack for one subfield of several stations. -/
def forStation (aidTidInfo : UInt16) : CtrlBAckResponseHeader :=
  { make with baType := ⟨.multiSta, [8]⟩, baInfo := [{ aidTidInfo := aidTidInfo, bitmap := List.replicate 8 0 }] }

/-- A multi-TID block ack is not written. A basic one never says that a packet is received. A
station that is not associated has a bitmap only before it is written. And an all-ack with a bitmap
is read as more subfields. -/
theorem responseCodec_exceptions : (make.setType (.ofVariant .multiTid)).serialize = none ∧
    ((make.recordAll 0 [5]).bind fun recorded => recorded.isPacketReceived 5 0) = some false ∧
    (((forStation 0x07fd).recordAll 0 [5]).bind fun recorded => recorded.isPacketReceived 5 0) = some true ∧
    (((forStation 0x07fd).recordAll 0 [5]).bind fun recorded => recorded.serialize.bind fun bytes =>
      (deserialize bytes).bind fun read => read.1.isPacketReceived 5 0) = none ∧
    ((forStation 0xe801).serialize.bind fun bytes =>
      (deserialize bytes).map fun read => read.1.baInfo.length) ≠ some 1 := by
  refine ⟨rfl, ?_, ?_, ?_, ?_⟩
  all_goals decide +kernel

/-- An all-ack, a block ack of four bytes and a station that is not associated. -/
def threeStations : CtrlBAckResponseHeader :=
  { make with
    baType := ⟨.multiSta, [0, 4, 8]⟩
    baInfo :=
      [{ aidTidInfo := 0xe801 }, { aidTidInfo := 0x3005, startingSeq := 4090, bitmap := List.replicate 4 0 },
        { aidTidInfo := 0x07fd, bitmap := List.replicate 8 0 }] }

/-- Packets are acknowledged on both sides of number 0. -/
theorem responseCodec_threeStations :
    threeStations.RoundTrip ∧ ∃ recorded, threeStations.recordAll 1 [4095, 2, 100] = some recorded ∧
      recorded.RoundTrip ∧ recorded.received.isPacketReceived 2 1 = some true ∧
      recorded.received.isPacketReceived 100 1 = some false := by
  have wellFormed : threeStations.WellFormed := by
    refine (if_pos rfl).mpr (.cons ⟨rfl, rfl⟩ (.cons ?_ (.cons rfl .nil)))
    exact ⟨rfl, rfl, by decide⟩
  obtain ⟨roundTrip, records⟩ := responseCodec threeStations wellFormed
  obtain ⟨recorded, isRecorded, further, told⟩ := records 1 _ 4 [4095, 2, 100] rfl rfl rfl (by decide)
    (fun _ => by decide) (by decide)
  exact ⟨roundTrip, recorded, isRecorded, further, (told 2 (by decide)).2, (told 100 (by decide)).2⟩

end CtrlBAckResponseHeader
end Ns3.Wifi.BlockAckResponse
