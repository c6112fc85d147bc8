import Ns3.Nr.Rrc.Asn1BitStream

/-!
# Items, written and read back

A fresh header reads back what a fresh header has written, except for integers of which the range
has one value: their variables are not set. A header that was used before behaves as a fresh one
exactly if it has no pending bits left over.
-/

namespace Ns3.Nr.Asn1Header

open Semantics Network List Option Asn1Header

def integerBits (n nmin nmax : Int) : List Bool :=
  if nmax - nmin + 1 ≤ 1 then []
  else bitsBelow (BitVec.ofInt (requiredBits (nmax - nmin + 1)) (n - nmin)) (requiredBits (nmax - nmin + 1))

def markerBits (isExtensionMarkerPresent : Bool) : List Bool :=
  if isExtensionMarkerPresent then [false] else []

def itemBits : Item -> List Bool
  | ⟨.bitstring size, data⟩ => bitsBelow data size
  | ⟨.boolean, value⟩ => [value]
  | ⟨.sequence size isExtensionMarkerPresent, optionalOrDefaultMask⟩ =>
    markerBits isExtensionMarkerPresent ++ bitsBelow optionalOrDefaultMask size
  | ⟨.sequenceOf nMax nMin, numElems⟩ => integerBits numElems nMin nMax
  | ⟨.enum numElems, selectedElem⟩ => integerBits selectedElem 0 (numElems - 1)
  | ⟨.choice numOptions isExtensionMarkerPresent, selectedOption⟩ =>
    markerBits isExtensionMarkerPresent ++ integerBits selectedOption 0 (numOptions - 1)
  | ⟨.integer nmin nmax, n⟩ => integerBits n nmin nmax

/-- An integer in its range, which has up to 2^28 values. -/
def InRange (n nmin nmax : Int) : Prop :=
  nmin ≤ n ∧ n ≤ nmax ∧ nmax - nmin + 1 ≤ 2 ^ 28

instance (n nmin nmax : Int) : Decidable (InRange n nmin nmax) :=
  inferInstanceAs (Decidable (_ ∧ _))

/-- The sizes of bitsets for which there are methods, and integers in their ranges. -/
def Valid : Item -> Prop
  | ⟨.bitstring size, _⟩ => size ∈ [1, 2, 8, 10, 16, 27, 28, 32]
  | ⟨.boolean, _⟩ => True
  | ⟨.sequence size _, _⟩ => size ∈ [0, 1, 2, 3, 4, 5, 6, 7, 9, 10, 11]
  | ⟨.sequenceOf nMax nMin, numElems⟩ => InRange numElems nMin nMax
  | ⟨.enum numElems, selectedElem⟩ => InRange selectedElem 0 (numElems - 1)
  | ⟨.choice numOptions _, selectedOption⟩ => InRange selectedOption 0 (numOptions - 1)
  | ⟨.integer nmin nmax, n⟩ => InRange n nmin nmax

/-- The range of an item has one value. -/
def Field.single : Field -> Bool
  | .bitstring _ | .boolean | .sequence _ _ => false
  | .sequenceOf nMax nMin => nMax = nMin
  | .enum numElems => numElems = 1
  | .choice numOptions _ => numOptions = 1
  | .integer nmin nmax => nmin = nmax

variable {header next other : Asn1Header} {stream more : List Bool} {buffer : List UInt8} {n old nmin nmax : Int}
  {item : Item} {items targets : List Item} {trace : List (Asn1Header × Action)} {size count : Nat}

theorem requiredBits_spec (inRange : InRange n nmin nmax) (several : ¬nmax - nmin + 1 ≤ 1) :
    1 ≤ requiredBits (nmax - nmin + 1) ∧ requiredBits (nmax - nmin + 1) ≤ 28 ∧
      (BitVec.ofInt (requiredBits (nmax - nmin + 1)) (n - nmin)).toNat = (n - nmin).toNat := by
  obtain ⟨above, below, range⟩ := inRange
  have pos : 0 < requiredBits (nmax - nmin + 1) := Nat.clog_pos (by omega) (by omega)
  have bound : requiredBits (nmax - nmin + 1) ≤ 28 := by
    apply Nat.clog_le_of_le_pow
    have small : (nmax - nmin + 1).toNat ≤ (2 ^ 28 : Int).toNat := Int.toNat_le_toNat range
    exact small
  have enough : (nmax - nmin + 1).toNat ≤ 2 ^ requiredBits (nmax - nmin + 1) := Nat.le_pow_clog (by omega) _
  refine ⟨pos, bound, ?_⟩
  rw [BitVec.toNat_ofInt, Int.emod_eq_of_lt (by omega)]
  have cast : ((nmax - nmin + 1).toNat : Int) ≤ ((2 ^ requiredBits (nmax - nmin + 1) : Nat) : Int) :=
    Int.ofNat_le.mpr enough
  rw [Int.toNat_of_nonneg (by omega)] at cast
  omega

section

variable (writes : Writes header stream)
include writes

theorem Writes.serializeBoolean (value : Bool) :
    Writes (header.serializeBoolean value) (stream ++ [value]) := by
  have written := writes.serializeBitset (by omega) (BitVec.ofBool value)
  cases value <;> exact written

theorem Writes.serializeMarker (isExtensionMarkerPresent : Bool) :
    Writes (header.serializeMarker isExtensionMarkerPresent) (stream ++ markerBits isExtensionMarkerPresent) := by
  cases isExtensionMarkerPresent with
  | false => simpa [Asn1Header.serializeMarker, markerBits] using writes
  | true => exact writes.serializeBoolean false

theorem Writes.serializeInteger (inRange : InRange n nmin nmax) :
    ∃ next, header.serializeInteger n nmin nmax = some next ∧ Writes next (stream ++ integerBits n nmin nmax) := by
  unfold Asn1Header.serializeInteger integerBits
  rw [if_pos ⟨inRange.1, inRange.2.1⟩]
  dsimp only
  by_cases single : nmax - nmin + 1 ≤ 1
  · rw [if_pos single, if_pos single, append_nil]
    exact ⟨header, rfl, writes⟩
  · obtain ⟨-, bound, -⟩ := requiredBits_spec inRange single
    rw [if_neg single, if_neg single, if_pos bound]
    exact ⟨_, rfl, writes.serializeBitset (by omega) _⟩

theorem Writes.serializeItem (valid : Valid item) :
    ∃ next, header.serializeItem item = some next ∧ Writes next (stream ++ itemBits item) := by
  obtain ⟨field, value⟩ := item
  cases field with
  | bitstring size =>
    have small : size < 256 := (by decide : ∀ size ∈ [1, 2, 8, 10, 16, 27, 28, 32], size < 256) size valid
    exact ⟨_, rfl, writes.serializeBitset small value⟩
  | boolean => exact ⟨_, rfl, writes.serializeBoolean value⟩
  | sequence size isExtensionMarkerPresent =>
    have small : size < 256 := (by decide : ∀ size ∈ [0, 1, 2, 3, 4, 5, 6, 7, 9, 10, 11], size < 256) size valid
    have written := (writes.serializeMarker isExtensionMarkerPresent).serializeBitset small value
    rw [append_assoc] at written
    exact ⟨_, rfl, written⟩
  | sequenceOf nMax nMin => exact writes.serializeInteger valid
  | enum numElems => exact writes.serializeInteger valid
  | choice numOptions isExtensionMarkerPresent =>
    have marked := writes.serializeMarker isExtensionMarkerPresent
    change ∃ next, header.serializeChoice numOptions value isExtensionMarkerPresent = some next ∧ _
    unfold serializeChoice
    dsimp only [itemBits]
    rw [← append_assoc]
    by_cases one : numOptions < 2
    · rw [if_pos one, integerBits, if_pos (by omega), append_nil]
      exact ⟨_, rfl, marked⟩
    · rw [if_neg one]
      exact marked.serializeInteger valid
  | integer nmin nmax => exact writes.serializeInteger valid

theorem Writes.serializeItems (valid : ∀ item ∈ items, Valid item) :
    ∃ next, header.serializeItems items = some next ∧ Writes next (stream ++ items.flatMap itemBits) := by
  induction items generalizing header stream with
  | nil => exact ⟨header, rfl, by rwa [flatMap_nil, append_nil]⟩
  | cons item items ih =>
    obtain ⟨first, isFirst, written⟩ := writes.serializeItem (valid item mem_cons_self)
    obtain ⟨next, isNext, further⟩ := ih written fun item later =>
      valid item (mem_cons_of_mem _ later)
    refine ⟨next, ?_, ?_⟩
    · rw [serializeItems, isFirst]
      exact isNext
    · rw [flatMap_cons, ← append_assoc]
      exact further

end

/-- No bits are left over from an earlier message. -/
def Clean (header : Asn1Header) : Prop :=
  header.numSerializationPendingBits = 0 ∧ header.serializationPendingBits = 0

theorem clean_iff_pending : header.Clean ↔ Pending header [] := by
  constructor
  · rintro ⟨count, octet⟩
    refine ⟨count, ?_⟩
    rw [octet]
    decide
  · rintro ⟨count, octet⟩
    exact ⟨count, octetBits_inj (octet.trans (by decide))⟩

theorem gatherOctet_toBitVec (octet : UInt8) : gatherOctet octet.toBitVec 8 8 1 0 = octet := by
  apply octetBits_inj
  have bits := @gatherOctet_spec 8 octet.toBitVec 1 0 8 8 [] (by omega) (by decide) (Nat.le_refl _) (by decide)
  rw [bits, append_nil, take_of_length_le (by simp)]
  rfl

/-- What is pending is written with zeros behind it. What has been written stays in the pending
octet. -/
theorem Writes.finalizeSerialization (writes : Writes header stream) : ∃ padding < 8,
    header.finalizeSerialization.serializationResult.flatMap octetBits = stream ++ replicate padding false ∧
      header.finalizeSerialization.numSerializationPendingBits = 0 ∧
      (stream.length % 8 = 0 -> header.finalizeSerialization.Clean) := by
  obtain ⟨bits, pending, few, rfl⟩ := writes
  have whole : (header.serializationResult.flatMap octetBits).length % 8 = 0 := by
    rw [length_flatMap_octetBits]
    omega
  unfold finalizeSerialization
  rw [pending.count]
  by_cases some : 0 < bits.length
  · rw [if_pos some]
    have written : { header with numSerializationPendingBits := 0 }.serializeBitset
        header.serializationPendingBits.toBitVec = { header with
          numSerializationPendingBits := 0
          serializationResult := header.serializationResult ++ [header.serializationPendingBits] } := by
      have one : { header with numSerializationPendingBits := 0 }.serializeBitset
          header.serializationPendingBits.toBitVec = { header with numSerializationPendingBits := 0 }.writeOctet
            (gatherOctet header.serializationPendingBits.toBitVec 8 8 1 0) := rfl
      rw [one, gatherOctet_toBitVec, writeOctet]
    rw [written]
    refine ⟨8 - bits.length, by omega, ?_, rfl, fun even => ?_⟩
    · dsimp only
      rw [flatMap_append, flatMap_singleton, pending.octet, append_assoc]
    · rw [length_append] at even
      omega
  · obtain rfl := eq_nil_of_length_eq_zero (Nat.le_zero.mp (Nat.not_lt.mp some))
    rw [if_neg some]
    refine ⟨0, by omega, ?_, pending.count, fun _ => ?_⟩
    · rw [replicate_zero, append_nil, append_nil]
    · exact clean_iff_pending.mpr ⟨pending.count, pending.octet⟩

theorem Reads.deserializeBoolean {value : Bool} (reads : Reads header buffer (value :: more)) :
    ∃ after rest, header.deserializeBoolean buffer = some (value, after, rest) ∧ Reads after rest more := by
  obtain ⟨result, after, rest, isResult, further, bits⟩ := reads.deserializeBitset (by simp) 0#1
  refine ⟨after, rest, ?_, further⟩
  have first : result.getLsbD 0 = value := by
    have heads := congrArg head? bits
    simpa [bitsBelow] using heads
  rw [Asn1Header.deserializeBoolean, isResult, map_some, first]

theorem Reads.deserializeMarker {isExtensionMarkerPresent : Bool}
    (reads : Reads header buffer (markerBits isExtensionMarkerPresent ++ more)) :
    ∃ after rest, header.deserializeMarker isExtensionMarkerPresent buffer = some (after, rest) ∧
      Reads after rest more := by
  cases isExtensionMarkerPresent with
  | false => exact ⟨header, buffer, rfl, reads⟩
  | true =>
    obtain ⟨after, rest, isMarker, further⟩ := reads.deserializeBoolean
    exact ⟨after, rest, by rw [Asn1Header.deserializeMarker, if_pos rfl, isMarker, map_some], further⟩

theorem Reads.deserializeWritten {data : BitVec size} (reads : Reads header buffer (bitsBelow data size ++ more))
    (held : BitVec size) :
    ∃ after rest, header.deserializeBitset held buffer = some (data, after, rest) ∧ Reads after rest more := by
  obtain ⟨result, after, rest, isResult, further, bits⟩ := reads.deserializeBitset (by simp) held
  have length := length_bitsBelow data size
  rw [take_left' length] at bits
  rw [drop_left' length] at further
  obtain rfl := bitsBelow_inj bits
  exact ⟨after, rest, isResult, further⟩

theorem Reads.deserializeInteger (reads : Reads header buffer (integerBits n nmin nmax ++ more))
    (inRange : InRange n nmin nmax) (old : Int) :
    ∃ after rest, header.deserializeInteger old nmin nmax buffer =
        some (if nmin = nmax then old else n, after, rest) ∧ Reads after rest more := by
  have ordered : ¬nmax < nmin := by
    have bounds := inRange.1.trans inRange.2.1
    omega
  unfold Asn1Header.deserializeInteger
  rw [if_neg ordered, if_neg ordered]
  dsimp only
  unfold integerBits at reads
  by_cases single : nmin = nmax
  · rw [if_pos (by omega), nil_append] at reads
    rw [if_pos (by omega), if_pos single]
    exact ⟨header, buffer, rfl, reads⟩
  · have several : ¬nmax - nmin + 1 ≤ 1 := by omega
    obtain ⟨pos, bound, isValue⟩ := requiredBits_spec inRange several
    rw [if_neg several] at reads
    obtain ⟨after, rest, isResult, further⟩ := reads.deserializeWritten (0#(requiredBits (nmax - nmin + 1)))
    rw [if_neg (by omega), if_pos ⟨pos, bound⟩, if_neg single, isResult]
    refine ⟨after, rest, ?_, further⟩
    rw [map_some, isValue, Int.toNat_of_nonneg (by have above := inRange.1; omega), Int.sub_add_cancel]

theorem Reads.deserializeItem (reads : Reads header buffer (itemBits item ++ more)) (valid : Valid item)
    (old : item.1.Value) :
    ∃ after rest, header.deserializeItem buffer ⟨item.1, old⟩ =
        some (if item.1.single then old else item.2, after, rest) ∧ Reads after rest more := by
  obtain ⟨field, value⟩ := item
  cases field with
  | bitstring size => exact reads.deserializeWritten old
  | boolean => exact reads.deserializeBoolean
  | sequence size isExtensionMarkerPresent =>
    rw [itemBits, append_assoc] at reads
    obtain ⟨marked, left, isMarked, further⟩ := reads.deserializeMarker
    obtain ⟨after, rest, isResult, last⟩ := further.deserializeWritten old
    refine ⟨after, rest, ?_, last⟩
    change header.deserializeSequence old isExtensionMarkerPresent buffer = _
    rw [deserializeSequence, isMarked]
    exact isResult
  | sequenceOf nMax nMin =>
    obtain ⟨after, rest, isResult, last⟩ := reads.deserializeInteger valid old
    refine ⟨after, rest, isResult.trans ?_, last⟩
    have same : (nMin = nMax) = (nMax = nMin) := propext eq_comm
    simp only [Field.single, decide_eq_true_eq, same]
  | enum numElems =>
    obtain ⟨after, rest, isResult, last⟩ := reads.deserializeInteger valid old
    refine ⟨after, rest, isResult.trans ?_, last⟩
    simp only [Field.single, decide_eq_true_eq, show (0 = numElems - 1 ↔ numElems = 1) by omega]
  | choice numOptions isExtensionMarkerPresent =>
    rw [itemBits, append_assoc] at reads
    obtain ⟨marked, left, isMarked, further⟩ := reads.deserializeMarker
    obtain ⟨after, rest, isResult, last⟩ := further.deserializeInteger valid old
    refine ⟨after, rest, ?_, last⟩
    change header.deserializeChoice numOptions isExtensionMarkerPresent old buffer = _
    rw [deserializeChoice, isMarked]
    refine isResult.trans ?_
    simp only [Field.single, decide_eq_true_eq, show (0 = numOptions - 1 ↔ numOptions = 1) by omega]
  | integer nmin nmax =>
    obtain ⟨after, rest, isResult, last⟩ := reads.deserializeInteger valid old
    refine ⟨after, rest, isResult.trans ?_, last⟩
    simp only [Field.single, decide_eq_true_eq]

/-- What is read for an item: its value, or what the variable held. -/
def readBack (item target : Item) : Item :=
  if item.1.single then target else item

theorem Reads.deserializeItems (reads : Reads header buffer (items.flatMap itemBits ++ more))
    (valid : ∀ item ∈ items, Valid item) (fields : targets.map Sigma.fst = items.map Sigma.fst) :
    ∃ after rest, header.deserializeItems buffer targets = some (zipWith readBack items targets, after, rest) ∧
      Reads after rest more := by
  induction items generalizing header buffer targets with
  | nil =>
    obtain rfl := map_eq_nil_iff.mp fields
    exact ⟨header, buffer, rfl, reads⟩
  | cons item items ih =>
    cases targets with
    | nil => cases fields
    | cons target targets =>
      obtain ⟨same, others⟩ := List.cons.inj fields
      obtain ⟨field, old⟩ := target
      dsimp only at same
      subst same
      rw [flatMap_cons, append_assoc] at reads
      obtain ⟨after, left, isItem, further⟩ := reads.deserializeItem (valid item mem_cons_self) old
      obtain ⟨last, rest, isRest, final⟩ := ih further (fun item later => valid item (mem_cons_of_mem _ later)) others
      refine ⟨last, rest, ?_, final⟩
      rw [deserializeItems, isItem, bind_some, isRest, map_some, zipWith_cons_cons, readBack]
      split <;> rfl

end Ns3.Nr.Asn1Header
