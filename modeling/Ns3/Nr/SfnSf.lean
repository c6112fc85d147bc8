import Mathlib.Data.UInt
import Ns3.Network.BitField

/-!
# Slot numbers

A slot is named by its frame, subframe and place in the subframe, together with the numerology that
says how many slots a subframe has. The fields are packed into 64 bits, and counted through by
`Normalize`, whose products are of 32 bits.
-/

namespace Ns3.Nr

structure SfnSf where
  frameNum : UInt32
  subframeNum : UInt8
  slotNum : UInt8
  numerology : UInt8
  deriving DecidableEq

open Network.BitField Option UInt32 Nat

namespace SfnSf

variable (sfn : SfnSf)

/-- What the encoders assert of the fields. -/
def Encodable : Prop :=
  sfn.numerology < 7 ∧ sfn.slotNum < 64 ∧ sfn.subframeNum < 10 ∧ sfn.frameNum < 16777215

instance (sfn : SfnSf) : Decidable sfn.Encodable :=
  inferInstanceAs (Decidable (_ ∧ _))

/-- There is no encoding after a failed assertion. -/
def getEncoding : Option UInt64 :=
  if sfn.Encodable then
    some (sfn.frameNum.toUInt64 <<< 24 ||| sfn.subframeNum.toUInt64 <<< 16 |||
      sfn.slotNum.toUInt64 <<< 8 ||| sfn.numerology.toUInt64 <<< 5)
  else none

def getEncodingWithSymStartRnti (symStart : UInt8) (rnti : UInt16) : Option UInt64 :=
  if symStart < 14 ∧ sfn.Encodable then
    some (rnti.toUInt64 <<< 48 ||| sfn.frameNum.toUInt64 <<< 24 ||| sfn.subframeNum.toUInt64 <<< 16 |||
      sfn.slotNum.toUInt64 <<< 8 ||| sfn.numerology.toUInt64 <<< 5 ||| symStart.toUInt64)
  else none

def fromEncoding (sfn : UInt64) : SfnSf where
  frameNum := ((sfn &&& 0x0000FFFFFF000000) >>> 24).toUInt32
  subframeNum := ((sfn &&& 0x0000000000FF0000) >>> 16).toUInt8
  slotNum := ((sfn &&& 0x000000000000FF00) >>> 8).toUInt8
  numerology := ((sfn &&& 0x00000000000000E0) >>> 5).toUInt8

def encode (p : SfnSf) : Option UInt64 :=
  p.getEncoding

def decode (sfn : UInt64) : SfnSf :=
  fromEncoding sfn

def getSubframesPerFrame : UInt32 :=
  10

def getSlotPerSubframe : UInt32 :=
  1 <<< sfn.numerology.toUInt32

/-- The products are computed before they are added to a number of 64 bits. -/
def normalize : UInt64 :=
  sfn.slotNum.toUInt64 + (sfn.subframeNum.toUInt32 * sfn.getSlotPerSubframe).toUInt64 +
    (sfn.frameNum * getSubframesPerFrame * sfn.getSlotPerSubframe).toUInt64

def add (slotN : UInt32) : Option SfnSf :=
  let slots := sfn.slotNum.toUInt32 + slotN
  let subframes := sfn.subframeNum.toUInt32 + slots / sfn.getSlotPerSubframe
  if sfn.numerology ≤ 5 then
    some { sfn with
      frameNum := sfn.frameNum + subframes / getSubframesPerFrame
      subframeNum := (subframes % getSubframesPerFrame).toUInt8
      slotNum := (slots % sfn.getSlotPerSubframe).toUInt8 }
  else none

/-- `operator<`. -/
def lt (sfn rhs : SfnSf) : Option Bool :=
  if rhs.numerology = sfn.numerology then
    some (if sfn.frameNum < rhs.frameNum then true
      else if sfn.frameNum = rhs.frameNum ∧ sfn.subframeNum < rhs.subframeNum then true
      else (sfn.frameNum = rhs.frameNum ∧ sfn.subframeNum = rhs.subframeNum) ∧ sfn.slotNum < rhs.slotNum)
  else none

/-- `operator==`. -/
def eq (sfn o : SfnSf) : Option Bool :=
  if o.numerology = sfn.numerology then
    some (sfn.frameNum = o.frameNum ∧ sfn.subframeNum = o.subframeNum ∧ sfn.slotNum = o.slotNum)
  else none

/-- `operator<=`. -/
def le (sfn rhs : SfnSf) : Option Bool :=
  if rhs.numerology = sfn.numerology then
    (sfn.lt rhs).bind fun less => if less then some true else sfn.eq rhs
  else none

/-- The slot numbers that there are, up to the last frame that is encoded. -/
structure Valid (sfn : SfnSf) : Prop where
  numerology : sfn.numerology.toNat ≤ 5
  subframeNum : sfn.subframeNum.toNat < 10
  slotNum : sfn.slotNum.toNat < 2 ^ sfn.numerology.toNat
  frameNum : sfn.frameNum.toNat < 16777215

/-- How many slots there are before this one. -/
def position : Nat :=
  (sfn.frameNum.toNat * 10 + sfn.subframeNum.toNat) * 2 ^ sfn.numerology.toNat + sfn.slotNum.toNat

/-- The slot `slotN` later is in the range too. -/
def InRange (slotN : Nat) : Prop :=
  sfn.position + slotN < 16777215 * 10 * 2 ^ sfn.numerology.toNat

instance (sfn : SfnSf) (slotN : Nat) : Decidable (sfn.InRange slotN) :=
  inferInstanceAs (Decidable (_ < _))

/-- The products and sums of 32 bits in `Normalize`, as they are without bound. -/
def normalizeTerms : List Nat :=
  [sfn.subframeNum.toNat * 2 ^ sfn.numerology.toNat, sfn.frameNum.toNat * 10,
    sfn.frameNum.toNat * 10 * 2 ^ sfn.numerology.toNat]

/-- Those of `Add`. -/
def addTerms (slotN : Nat) : List Nat :=
  let slots := sfn.slotNum.toNat + slotN
  let subframes := sfn.subframeNum.toNat + slots / 2 ^ sfn.numerology.toNat
  [slots, subframes, sfn.frameNum.toNat + subframes / 10]

def NoWrap (terms : List Nat) : Prop :=
  ∀ term ∈ terms, term < 2 ^ 32

/-- What is expected of a slot, of another one that it is compared with, and of the slots `a` and
then `b` later. -/
structure Consistent (sfn rhs : SfnSf) (a b : UInt32) : Prop where
  added : ∃ later, sfn.add (a + b) = some later ∧ later.Valid ∧
    later.normalize.toNat = sfn.normalize.toNat + (a + b).toNat
  inTwoSteps : (sfn.add a).bind (·.add b) = sfn.add (a + b)
  lt : sfn.lt rhs = some (decide (sfn.normalize < rhs.normalize))
  le : sfn.le rhs = some (decide (sfn.normalize ≤ rhs.normalize))
  eq : sfn.eq rhs = some (decide (sfn.normalize = rhs.normalize))
  decoded : sfn.encode.map decode = some sfn
  injective : ∀ other : SfnSf, other.Valid -> other.getEncoding = sfn.getEncoding -> other = sfn
  tagged : ∀ symStart < 14, ∀ rnti, (sfn.getEncodingWithSymStartRnti symStart rnti).map fromEncoding = some sfn
  noWrap : NoWrap (sfn.normalizeTerms ++ rhs.normalizeTerms ++ sfn.addTerms (a.toNat + b.toNat))
  noWrapAfter : ∀ later, sfn.add (a + b) = some later -> NoWrap later.normalizeTerms
  noWrapBetween : ∀ middle, sfn.add a = some middle ->
    NoWrap (sfn.addTerms a.toNat ++ middle.normalizeTerms ++ middle.addTerms b.toNat)

/-- With 32 slots in a subframe, the slots up to frame 13421772 are counted in 32 bits. -/
def InWidth (sfn rhs : SfnSf) (slotN : Nat) : Prop :=
  sfn.numerology.toNat ≤ 4 ∨
    rhs.frameNum.toNat ≤ 13421772 ∧ (sfn.position + slotN) / 320 ≤ 13421772 ∧ sfn.slotNum.toNat + slotN < 2 ^ 32

variable {sfn rhs : SfnSf}

theorem Valid.encodable (valid : sfn.Valid) : sfn.Encodable := by
  obtain ⟨numerology, subframeNum, slotNum, frameNum⟩ := valid
  have few : 2 ^ sfn.numerology.toNat ≤ 2 ^ 5 := Nat.pow_le_pow_right (by decide) numerology
  refine ⟨UInt8.lt_iff_toNat_lt.mpr ?_, UInt8.lt_iff_toNat_lt.mpr ?_, UInt8.lt_iff_toNat_lt.mpr ?_,
    lt_iff_toNat_lt.mpr ?_⟩ <;> simp <;> omega

theorem Valid.slots (valid : sfn.Valid) : sfn.getSlotPerSubframe.toNat = 2 ^ sfn.numerology.toNat := by
  have small := valid.numerology
  have bounded : 2 ^ sfn.numerology.toNat ≤ 2 ^ 5 := Nat.pow_le_pow_right (by decide) small
  have one : (1 : UInt32).toNat = 1 := rfl
  rw [getSlotPerSubframe, UInt32.toNat_shiftLeft, UInt8.toNat_toUInt32, one, Nat.one_shiftLeft,
    Nat.mod_eq_of_lt (show sfn.numerology.toNat < 32 by omega), Nat.mod_eq_of_lt (by omega)]

/-- The fields next to each other, as a number. -/
def packed (sfn : SfnSf) (symStart rnti : Nat) : Nat :=
  rnti * 2 ^ 48 + sfn.frameNum.toNat * 2 ^ 24 + sfn.subframeNum.toNat * 2 ^ 16 + sfn.slotNum.toNat * 2 ^ 8 +
    sfn.numerology.toNat * 2 ^ 5 + symStart

/-- Fields that do not overlap are added. -/
theorem joined {rnti frameNum subframeNum slotNum numerology symStart : Nat} (inFrame : frameNum < 2 ^ 24)
    (inSubframe : subframeNum < 2 ^ 8) (inSlot : slotNum < 2 ^ 8) (inNumerology : numerology < 2 ^ 3)
    (inSymbol : symStart < 2 ^ 5) :
    rnti * 2 ^ 48 ||| frameNum * 2 ^ 24 ||| subframeNum * 2 ^ 16 ||| slotNum * 2 ^ 8 |||
        numerology * 2 ^ 5 ||| symStart =
      rnti * 2 ^ 48 + frameNum * 2 ^ 24 + subframeNum * 2 ^ 16 + slotNum * 2 ^ 8 + numerology * 2 ^ 5 + symStart := by
  simp (disch := omega) only [or_eq_add 48, or_eq_add 24, or_eq_add 16, or_eq_add 8, or_eq_add 5]

theorem getEncodingWithSymStartRnti_eq (encodable : sfn.Encodable) {symStart : UInt8}
    (inSymbol : symStart < 14) (rnti : UInt16) :
    ∃ word, sfn.getEncodingWithSymStartRnti symStart rnti = some word ∧
      word.toNat = sfn.packed symStart.toNat rnti.toNat := by
  refine ⟨_, if_pos ⟨inSymbol, encodable⟩, ?_⟩
  obtain ⟨inNumerology, inSlot, inSubframe, inFrame⟩ := encodable
  rw [UInt8.lt_iff_toNat_lt] at inSymbol inNumerology inSlot inSubframe
  rw [lt_iff_toNat_lt] at inFrame
  simp only [UInt8.reduceToNat, reduceToNat] at inSymbol inNumerology inSlot inSubframe inFrame
  have inRnti := rnti.toNat_lt
  simp only [UInt64.toNat_or, UInt64.toNat_shiftLeft, UInt16.toNat_toUInt64, toNat_toUInt64, UInt8.toNat_toUInt64,
    UInt64.reduceToNat, Nat.reduceMod, Nat.shiftLeft_eq]
  rw [packed, ← joined (by omega) (by omega) (by omega) (by omega) (by omega), Nat.mod_eq_of_lt (by omega),
    Nat.mod_eq_of_lt (by omega), Nat.mod_eq_of_lt (by omega), Nat.mod_eq_of_lt (by omega), Nat.mod_eq_of_lt (by omega)]

theorem getEncoding_eq (sfn : SfnSf) : sfn.getEncoding = sfn.getEncodingWithSymStartRnti 0 0 := by
  have first : (0 : UInt8) < 14 := by decide
  have rnti : (0 : UInt16).toUInt64 <<< 48 = 0 := by decide
  have symStart : (0 : UInt8).toUInt64 = 0 := by decide
  simp only [getEncoding, getEncodingWithSymStartRnti, first, true_and, rnti, symStart, UInt64.zero_or, UInt64.or_zero]

theorem fromEncoding_of_packed {word : UInt64} (encodable : sfn.Encodable) {symStart rnti : Nat}
    (inSymbol : symStart < 14)
    (isWord : word.toNat = sfn.packed symStart rnti) : fromEncoding word = sfn := by
  obtain ⟨inNumerology, inSlot, inSubframe, inFrame⟩ := encodable
  rw [UInt8.lt_iff_toNat_lt] at inNumerology inSlot inSubframe
  rw [UInt32.lt_iff_toNat_lt] at inFrame
  simp only [UInt8.reduceToNat, UInt32.reduceToNat] at inNumerology inSlot inSubframe inFrame
  have frameMask := and_field word.toNat 24 24
  have subframeMask := and_field word.toNat 8 16
  have slotMask := and_field word.toNat 8 8
  have numerologyMask := and_field word.toNat 3 5
  simp only [Nat.reducePow, Nat.reduceSub, Nat.reduceMul] at frameMask subframeMask slotMask numerologyMask
  rw [packed] at isWord
  cases sfn
  simp only [fromEncoding, mk.injEq, ← UInt32.toNat_inj, ← UInt8.toNat_inj, UInt64.toNat_toUInt32, UInt64.toNat_toUInt8,
    UInt64.toNat_shiftRight, UInt64.toNat_and, UInt64.reduceToNat, Nat.reduceMod,
      Nat.shiftRight_eq_div_pow, Nat.reducePow,
    frameMask, subframeMask, slotMask, numerologyMask]
  simp only at isWord inNumerology inSlot inSubframe inFrame
  omega

section

variable (valid : sfn.Valid)
include valid

theorem Valid.decodes {symStart : UInt8} (inSymbol : symStart < 14) (rnti : UInt16) :
    (sfn.getEncodingWithSymStartRnti symStart rnti).map fromEncoding = some sfn := by
  obtain ⟨word, isWord, isPacked⟩ := getEncodingWithSymStartRnti_eq valid.encodable inSymbol rnti
  rw [isWord, map_some, fromEncoding_of_packed valid.encodable (UInt8.lt_iff_toNat_lt.mp inSymbol) isPacked]

theorem Valid.numerology_cases :
    ∃ slots : Nat, 2 ^ sfn.numerology.toNat = slots ∧ (slots = 32 ∧ sfn.numerology.toNat = 5 ∨
      sfn.numerology.toNat ≤ 4 ∧ (slots = 1 ∨ slots = 2 ∨ slots = 4 ∨ slots = 8 ∨ slots = 16)) := by
  have small := valid.numerology
  generalize sfn.numerology.toNat = numerology at small
  obtain rfl | rfl | rfl | rfl | rfl | rfl : numerology = 0 ∨ numerology = 1 ∨ numerology = 2 ∨ numerology = 3 ∨
      numerology = 4 ∨ numerology = 5 := by omega
  all_goals exact ⟨_, rfl, by decide⟩

theorem normalize_toNat (noWrap : NoWrap sfn.normalizeTerms) : sfn.normalize.toNat = sfn.position := by
  obtain ⟨subframes, frames, slots⟩ : _ ∧ _ ∧ _ := by simpa [NoWrap, normalizeTerms] using noWrap
  have inSlot := sfn.slotNum.toNat_lt
  have ten : getSubframesPerFrame.toNat = 10 := rfl
  rw [normalize, UInt64.toNat_add, UInt64.toNat_add, UInt32.toNat_toUInt64, UInt32.toNat_toUInt64, UInt8.toNat_toUInt64,
    UInt32.toNat_mul, UInt32.toNat_mul, UInt32.toNat_mul, UInt8.toNat_toUInt32, valid.slots, ten,
      mod_eq_of_lt subframes,
    mod_eq_of_lt frames, mod_eq_of_lt slots, position, add_mul]
  omega

/-- Where the products of `Normalize` fit. -/
theorem noWrap_normalizeTerms_iff :
    NoWrap sfn.normalizeTerms ↔ sfn.numerology.toNat ≤ 4 ∨ sfn.frameNum.toNat ≤ 13421772 := by
  obtain ⟨slots, isSlots, few⟩ := valid.numerology_cases
  have inSubframe := valid.subframeNum
  have inFrame := valid.frameNum
  simp only [NoWrap, normalizeTerms, isSlots, List.forall_mem_cons, List.not_mem_nil, false_imp_iff,
    implies_true, and_true]
  obtain ⟨rfl, isFive⟩ | ⟨small, rfl | rfl | rfl | rfl | rfl⟩ := few <;> omega

section

variable (rhsValid : rhs.Valid)
include rhsValid

section

variable (same : rhs.numerology = sfn.numerology)
include same

theorem position_lt_iff :
    sfn.position < rhs.position ↔ sfn.frameNum < rhs.frameNum ∨ sfn.frameNum = rhs.frameNum ∧
      (sfn.subframeNum < rhs.subframeNum ∨ sfn.subframeNum = rhs.subframeNum ∧ sfn.slotNum < rhs.slotNum) := by
  have inSlot := valid.slotNum
  have rhsInSlot := rhsValid.slotNum
  have inSubframe := valid.subframeNum
  have rhsInSubframe := rhsValid.subframeNum
  rw [same] at rhsInSlot
  obtain ⟨slots, isSlots, few⟩ := valid.numerology_cases
  simp only [position, same, isSlots, UInt32.lt_iff_toNat_lt, UInt8.lt_iff_toNat_lt, ← UInt32.toNat_inj,
    ← UInt8.toNat_inj] at inSlot rhsInSlot ⊢
  obtain ⟨rfl, -⟩ | ⟨-, rfl | rfl | rfl | rfl | rfl⟩ := few <;> omega

theorem eq_of_position
    (isSame : sfn.position = rhs.position) : sfn = rhs := by
  have notLess := (position_lt_iff valid rhsValid same).not.mp isSame.not_lt
  have notGreater := (position_lt_iff rhsValid valid same.symm).not.mp isSame.symm.not_lt
  cases sfn
  cases rhs
  simp only [UInt32.lt_iff_toNat_lt, UInt8.lt_iff_toNat_lt, ← UInt32.toNat_inj, ← UInt8.toNat_inj, mk.injEq]
    at notLess notGreater same ⊢
  omega

theorem lt_eq : sfn.lt rhs = some (decide (sfn.position < rhs.position)) := by
  rw [lt, if_pos same, some_inj, Bool.eq_iff_iff, decide_eq_true_iff, position_lt_iff valid rhsValid same]
  split_ifs with frame subframe
  · exact iff_of_true rfl (.inl frame)
  · exact iff_of_true rfl (.inr ⟨subframe.1, .inl subframe.2⟩)
  · rw [decide_eq_true_iff]
    constructor
    · rintro ⟨⟨sameFrame, sameSubframe⟩, slot⟩
      exact .inr ⟨sameFrame, .inr ⟨sameSubframe, slot⟩⟩
    · rintro (less | ⟨sameFrame, less | ⟨sameSubframe, slot⟩⟩)
      · exact absurd less frame
      · exact absurd ⟨sameFrame, less⟩ subframe
      · exact ⟨⟨sameFrame, sameSubframe⟩, slot⟩

theorem eq_eq : sfn.eq rhs = some (decide (sfn.position = rhs.position)) := by
  rw [eq, if_pos same]
  congr 1
  rw [decide_eq_decide]
  constructor
  · rintro ⟨frame, subframe, slot⟩
    rw [position, position, frame, subframe, slot, same]
  · intro isSame
    rw [eq_of_position valid rhsValid same isSame]
    exact ⟨rfl, rfl, rfl⟩

theorem le_eq : sfn.le rhs = some (decide (sfn.position ≤ rhs.position)) := by
  rw [le, if_pos same, lt_eq valid rhsValid same, eq_eq valid rhsValid same, bind_some]
  split_ifs with less
  · rw [decide_eq_true (of_decide_eq_true less).le]
  · rw [decide_eq_true_iff] at less
    rw [decide_eq_decide.mpr]
    omega

end

end

theorem noWrap_addTerms_iff {slotN : Nat} (inRange : sfn.InRange slotN) :
    NoWrap (sfn.addTerms slotN) ↔ sfn.slotNum.toNat + slotN < 2 ^ 32 := by
  obtain ⟨slots, isSlots, few⟩ := valid.numerology_cases
  have inSlot := valid.slotNum
  have inSubframe := valid.subframeNum
  have inFrame := valid.frameNum
  simp only [NoWrap, addTerms, InRange, position, isSlots, List.forall_mem_cons, List.not_mem_nil, false_imp_iff,
    implies_true, and_true] at inSlot inRange ⊢
  obtain ⟨rfl, -⟩ | ⟨-, rfl | rfl | rfl | rfl | rfl⟩ := few <;> omega

theorem add_eq {slotN : UInt32} (inRange : sfn.InRange slotN.toNat)
    (noWrap : sfn.slotNum.toNat + slotN.toNat < 2 ^ 32) :
    ∃ later, sfn.add slotN = some later ∧ later.Valid ∧ later.numerology = sfn.numerology ∧
      later.position = sfn.position + slotN.toNat := by
  have terms := (noWrap_addTerms_iff valid inRange).mpr noWrap
  have inSlot := valid.slotNum
  have inSubframe := valid.subframeNum
  have inFrame := valid.frameNum
  have ten : getSubframesPerFrame.toNat = 10 := rfl
  obtain ⟨slots, isSlots, few⟩ := valid.numerology_cases
  obtain ⟨-, subframes, frames⟩ : _ ∧ _ ∧ _ := by simpa [NoWrap, addTerms, isSlots] using terms
  refine ⟨_, if_pos (UInt8.le_iff_toNat_le.mpr valid.numerology), ⟨valid.numerology, ?_, ?_, ?_⟩, rfl, ?_⟩
  all_goals
    simp only [position, InRange, UInt32.toNat_add, UInt32.toNat_div, UInt32.toNat_mod, UInt8.toNat_toUInt32,
      UInt32.toNat_toUInt8, valid.slots, ten, isSlots, mod_eq_of_lt noWrap, mod_eq_of_lt subframes,
      mod_eq_of_lt frames] at inSlot inRange ⊢
    obtain ⟨rfl, -⟩ | ⟨-, rfl | rfl | rfl | rfl | rfl⟩ := few <;> omega

theorem Valid.position_mod : sfn.position % 2 ^ sfn.numerology.toNat = sfn.slotNum.toNat := by
  rw [position, mul_comm, mul_add_mod, mod_eq_of_lt valid.slotNum]

theorem add_add {a b : UInt32} (inRange : sfn.InRange (a.toNat + b.toNat))
    (noWrap : sfn.slotNum.toNat + (a.toNat + b.toNat) < 2 ^ 32) :
    ∃ middle later, sfn.add a = some middle ∧ middle.Valid ∧ middle.numerology = sfn.numerology ∧
      middle.position = sfn.position + a.toNat ∧ middle.InRange b.toNat ∧ middle.slotNum.toNat + b.toNat < 2 ^ 32 ∧
      middle.add b = some later ∧ sfn.add (a + b) = some later ∧ later.Valid ∧ later.numerology = sfn.numerology ∧
      later.position = sfn.position + (a.toNat + b.toNat) := by
  have sum : (a + b).toNat = a.toNat + b.toNat := by
    rw [UInt32.toNat_add, mod_eq_of_lt (by omega)]
  have inRangeFirst : sfn.InRange a.toNat := by
    rw [InRange] at inRange ⊢
    omega
  obtain ⟨middle, isMiddle, middleValid, sameMiddle, atMiddle⟩ := add_eq valid inRangeFirst (by omega)
  have inRangeSecond : middle.InRange b.toNat := by
    rw [InRange, sameMiddle, atMiddle, add_assoc]
    exact inRange
  have noWrapSecond : middle.slotNum.toNat + b.toNat < 2 ^ 32 := by
    have inMiddle := calc middle.slotNum.toNat
      _ = (sfn.position + a.toNat) % 2 ^ sfn.numerology.toNat :=
        by rw [← middleValid.position_mod, atMiddle, sameMiddle]
      _ = (sfn.slotNum.toNat + a.toNat) % 2 ^ sfn.numerology.toNat := by
        rw [position, add_assoc, mul_comm, mul_add_mod]
      _ ≤ sfn.slotNum.toNat + a.toNat := mod_le _ _
    omega
  obtain ⟨later, isLater, laterValid, sameLater, atLater⟩ := add_eq middleValid inRangeSecond noWrapSecond
  obtain ⟨last, isLast, lastValid, sameLast, atLast⟩ := @add_eq _ valid (a + b) (by rwa [sum]) (by rwa [sum])
  have isSame : last = later := by
    apply eq_of_position lastValid laterValid
    · rw [sameLater, sameMiddle, sameLast]
    · rw [atLast, atLater, atMiddle, sum, add_assoc]
  refine ⟨middle, later, isMiddle, middleValid, sameMiddle, atMiddle, inRangeSecond, noWrapSecond,
    isLater, isSame ▸ isLast,
    laterValid, sameLater.trans sameMiddle, ?_⟩
  rw [atLater, atMiddle, add_assoc]

theorem Valid.position_div : sfn.position / (10 * 2 ^ sfn.numerology.toNat) = sfn.frameNum.toNat := by
  have inSlot := valid.slotNum
  have inSubframe := valid.subframeNum
  obtain ⟨slots, isSlots, few⟩ := valid.numerology_cases
  simp only [position, isSlots] at inSlot ⊢
  obtain ⟨rfl, -⟩ | ⟨-, rfl | rfl | rfl | rfl | rfl⟩ := few <;> omega

theorem noWrap_of_le (rhsValid : rhs.Valid) (same : rhs.numerology = sfn.numerology)
    (before : sfn.position ≤ rhs.position) (noWrap : NoWrap rhs.normalizeTerms) : NoWrap sfn.normalizeTerms := by
  have inFrame : sfn.frameNum.toNat ≤ rhs.frameNum.toNat := by
    rw [← valid.position_div, ← rhsValid.position_div, same]
    exact Nat.div_le_div_right before
  rw [noWrap_normalizeTerms_iff rhsValid, same] at noWrap
  rw [noWrap_normalizeTerms_iff valid]
  omega

end

theorem InWidth.offset {slotN : Nat} (inWidth : InWidth sfn rhs slotN) (inRange : sfn.InRange slotN) :
    sfn.slotNum.toNat + slotN < 2 ^ 32 := by
  rcases inWidth with small | ⟨-, -, fits⟩
  · have few : 2 ^ sfn.numerology.toNat ≤ 2 ^ 4 := Nat.pow_le_pow_right (by decide) small
    rw [InRange, position] at inRange
    omega
  · exact fits

theorem inWidth_iff (rhsValid : rhs.Valid) (same : rhs.numerology = sfn.numerology) {slotN : Nat} {later : SfnSf}
    (inRange : sfn.InRange slotN) (laterValid : later.Valid) (sameLater : later.numerology = sfn.numerology)
    (atLater : later.position = sfn.position + slotN) :
    InWidth sfn rhs slotN ↔ NoWrap rhs.normalizeTerms ∧ NoWrap later.normalizeTerms ∧
      sfn.slotNum.toNat + slotN < 2 ^ 32 := by
  have isFrame := laterValid.position_div
  have bounded := laterValid.numerology
  rw [sameLater] at isFrame bounded
  rw [noWrap_normalizeTerms_iff rhsValid, noWrap_normalizeTerms_iff laterValid, same, sameLater]
  by_cases small : sfn.numerology.toNat ≤ 4
  · have inWidth : InWidth sfn rhs slotN := .inl small
    simp only [small, true_or, true_and, inWidth, inWidth.offset inRange]
  · have isFive : sfn.numerology.toNat = 5 := by omega
    have frame : later.position / 320 = later.frameNum.toNat := by rwa [isFive] at isFrame
    simp only [InWidth, small, false_or, ← atLater, frame]

/-- A slot and those later are consistent exactly as long as they are counted in 32 bits. -/
theorem consistent_iff (valid : sfn.Valid) (rhsValid : rhs.Valid)
    (same : rhs.numerology = sfn.numerology) {a b : UInt32}
    (offset : a.toNat + b.toNat < 2 ^ 32) (inRange : sfn.InRange (a.toNat + b.toNat)) :
    Consistent sfn rhs a b ↔ InWidth sfn rhs (a.toNat + b.toNat) := by
  have sum : (a + b).toNat = a.toNat + b.toNat := by
    rw [UInt32.toNat_add, mod_eq_of_lt offset]
  have inRangeFirst : sfn.InRange a.toNat := by
    rw [InRange] at inRange ⊢
    omega
  constructor
  · intro consistent
    obtain ⟨⟨-, noWrapRhs⟩, slots⟩ : (NoWrap sfn.normalizeTerms ∧ NoWrap rhs.normalizeTerms) ∧
        NoWrap (sfn.addTerms (a.toNat + b.toNat)) := by
      simpa only [NoWrap, List.forall_mem_append] using consistent.noWrap
    have fits := (noWrap_addTerms_iff valid inRange).mp slots
    obtain ⟨-, later, -, -, -, -, -, -, -, isSum, laterValid, sameLater, atLater⟩ := add_add valid inRange fits
    exact (inWidth_iff rhsValid same inRange laterValid sameLater atLater).mpr
      ⟨noWrapRhs, consistent.noWrapAfter later isSum, fits⟩
  · intro inWidth
    obtain ⟨middle, later, isMiddle, middleValid, sameMiddle, atMiddle, inRangeSecond, fitsSecond, isLater, isSum,
      laterValid, sameLater, atLater⟩ := add_add valid inRange (inWidth.offset inRange)
    obtain ⟨noWrapRhs, noWrapLater, fits⟩ := (inWidth_iff rhsValid same inRange laterValid sameLater atLater).mp inWidth
    have noWrapMiddle : NoWrap middle.normalizeTerms :=
      noWrap_of_le middleValid laterValid (sameLater.trans sameMiddle.symm) (by omega) noWrapLater
    have noWrapFirst : NoWrap sfn.normalizeTerms :=
      noWrap_of_le valid laterValid sameLater (by omega) noWrapLater
    have isPosition := normalize_toNat valid noWrapFirst
    have isRhsPosition := normalize_toNat rhsValid noWrapRhs
    exact {
      added := ⟨later, isSum, laterValid, by rw [normalize_toNat laterValid noWrapLater, isPosition, atLater, sum]⟩
      inTwoSteps := by rw [isMiddle, bind_some, isLater, isSum]
      lt := by simp only [lt_eq valid rhsValid same, ← isPosition, ← isRhsPosition, UInt64.lt_iff_toNat_lt]
      le := by simp only [le_eq valid rhsValid same, ← isPosition, ← isRhsPosition, UInt64.le_iff_toNat_le]
      eq := by simp only [eq_eq valid rhsValid same, ← isPosition, ← isRhsPosition, UInt64.toNat_inj]
      decoded := by
        rw [encode, getEncoding_eq]
        exact valid.decodes (by decide) 0
      injective := by
        intro other otherValid sameEncoding
        have decoded := valid.decodes (by decide : (0 : UInt8) < 14) 0
        rw [← getEncoding_eq, ← sameEncoding, getEncoding_eq, otherValid.decodes (by decide) 0] at decoded
        exact some_inj.mp decoded
      tagged := fun symStart inSymbol rnti => valid.decodes inSymbol rnti
      noWrap := by
        simp only [NoWrap, List.forall_mem_append]
        exact ⟨⟨noWrapFirst, noWrapRhs⟩, (noWrap_addTerms_iff valid inRange).mpr fits⟩
      noWrapAfter := by
        intro last isLast
        rwa [some_inj.mp (isLast.symm.trans isSum)]
      noWrapBetween := by
        intro between isBetween
        rw [some_inj.mp (isBetween.symm.trans isMiddle)]
        simp only [NoWrap, List.forall_mem_append]
        exact ⟨⟨(noWrap_addTerms_iff valid inRangeFirst).mpr (by omega), noWrapMiddle⟩,
          (noWrap_addTerms_iff middleValid inRangeSecond).mpr fitsSecond⟩ }

/-- The last slots that are counted. -/
theorem lastCounted_consistent : Consistent ⟨13421772, 9, 30, 5⟩ ⟨0, 0, 0, 5⟩ 1 0 := by
  have valid : (⟨13421772, 9, 30, 5⟩ : SfnSf).Valid := ⟨by decide, by decide, by decide, by decide⟩
  have rhsValid : (⟨0, 0, 0, 5⟩ : SfnSf).Valid := ⟨by decide, by decide, by decide, by decide⟩
  exact (consistent_iff valid rhsValid rfl (by decide) (by decide)).mpr (.inr (by decide))

/-- The slot after them counts as 64. -/
theorem afterLastCounted_not_consistent : (⟨13421772, 9, 31, 5⟩ : SfnSf).Valid ∧ (⟨0, 0, 0, 5⟩ : SfnSf).Valid ∧
    (⟨13421772, 9, 31, 5⟩ : SfnSf).InRange 1 ∧ ¬Consistent ⟨13421772, 9, 31, 5⟩ ⟨0, 0, 0, 5⟩ 1 0 := by
  refine ⟨⟨by decide, by decide, by decide, by decide⟩, ⟨by decide, by decide, by decide, by decide⟩, by decide, ?_⟩
  intro consistent
  obtain ⟨later, isLater, -, counted⟩ := consistent.added
  have isNext : later = ⟨13421773, 0, 0, 5⟩ := some_inj.mp (isLater.symm.trans rfl)
  rw [isNext] at counted
  exact absurd counted (by decide)

end SfnSf

end Ns3.Nr
