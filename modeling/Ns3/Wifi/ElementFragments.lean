import Mathlib.Data.List.Induction
import Ns3.Wifi.InformationElement

/-!
# Fragments of information elements

What an element is written as: the element itself and fragments, all but the last of the maximum
size. What is read of them is what they carry.
-/

namespace Ns3.Wifi

open Network.BufferIterator List Option UInt16 Nat

/-- The octets of an element or of a fragment. -/
def frame (id : UInt8) (body : List UInt8) : List UInt8 :=
  id :: UInt8.ofNat body.length :: body

/-- Fragments one after the other. -/
def fragments (bodies : List (List UInt8)) : List UInt8 :=
  (bodies.map (frame ieFragment)).flatten

variable {first body done other : List UInt8} {bodies : List (List UInt8)}

@[simp] theorem fragments_nil : fragments [] = [] := rfl

@[simp] theorem fragments_cons : fragments (body :: bodies) = frame ieFragment body ++ fragments bodies := rfl

theorem fragments_append (front back : List (List UInt8)) :
    fragments (front ++ back) = fragments front ++ fragments back := by
  simp [fragments]

theorem length_fragments : (fragments bodies).length = 2 * bodies.length + bodies.flatten.length := by
  induction bodies with
  | nil => rfl
  | cons body bodies ih =>
    simp only [fragments_cons, frame, length_append, length_cons, ih, flatten_cons]
    omega

/-- The element is full if there are fragments, and so is every fragment but the last. -/
structure Shape (first : List UInt8) (bodies : List (List UInt8)) : Prop where
  first_le : first.length ≤ 255
  first_full : bodies ≠ [] -> first.length = 255
  le : ∀ body ∈ bodies, 0 < body.length ∧ body.length ≤ 255
  full : ∀ body ∈ bodies.dropLast, body.length = 255

theorem length_flatten_of_full (full : ∀ body ∈ bodies, body.length = 255) :
    bodies.flatten.length = 255 * bodies.length := by
  induction bodies with
  | nil => rfl
  | cons body bodies ih =>
    obtain ⟨isFull, others⟩ := forall_mem_cons.mp full
    rw [flatten_cons, length_append, isFull, ih others, length_cons]
    omega

theorem Shape.eq_nil (shape : Shape first bodies) (short : (first ++ bodies.flatten).length ≤ 255) : bodies = [] := by
  cases bodies with
  | nil => rfl
  | cons body bodies =>
    have isFirst := shape.first_full (cons_ne_nil _ _)
    have pos := (shape.le body mem_cons_self).1
    simp only [flatten_cons, length_append] at short
    omega

theorem Shape.length_eq (shape : Shape first bodies) (long : 255 < (first ++ bodies.flatten).length) :
    bodies.length + 1 = (first ++ bodies.flatten).length / 255 +
      (if 0 < (first ++ bodies.flatten).length % 255 then 1 else 0) := by
  cases bodies using reverseRecOn with
  | nil =>
    rw [flatten_nil, append_nil] at long
    exact absurd shape.first_le (not_le.mpr long)
  | append_singleton front last =>
    have isFirst := shape.first_full (append_ne_nil_of_right_ne_nil _ (cons_ne_nil _ _))
    have full := shape.full
    rw [dropLast_concat] at full
    obtain ⟨pos, small⟩ := shape.le last (mem_append_right _ mem_cons_self)
    have isLength : (first ++ (front ++ [last]).flatten).length = 255 * (front.length + 1) + last.length := by
      rw [flatten_append, length_append, length_append, length_flatten_of_full full, isFirst, flatten_singleton]
      omega
    rw [isLength, length_append, length_singleton]
    split <;> omega

/-- What the buffer holds when `body` has been written behind the first `length` bytes. -/
def overwrite (buffer : List UInt8) (length : UInt16) (body : List UInt8) : List UInt8 :=
  buffer.take length.toNat ++ body ++ buffer.drop (length.toNat + body.length)

open WifiInformationElement in
theorem copyFragments_stop (buffer : List UInt8) (length : UInt16) (isOther : other.head? ≠ some ieFragment) :
    copyFragments buffer length body.length (body ++ other) =
      some (overwrite buffer length body, length + ofNat body.length, other) := by
  rw [copyFragments, if_pos (by simp), take_left]
  split
  next isNext =>
    rw [drop_left] at isNext
    rw [isNext]
    rfl
  next id rest isNext =>
    rw [drop_left] at isNext
    subst isNext
    dsimp only
    rw [if_pos fun same => isOther (congrArg some same)]
    rfl

open WifiInformationElement in
theorem copyFragments_next (buffer : List UInt8) (length : UInt16) (next : UInt8) :
    copyFragments buffer length body.length (body ++ ieFragment :: next :: other) =
      copyFragments (overwrite buffer length body ++ replicate next.toNat 0) (length + ofNat body.length)
        next.toNat other := by
  rw [copyFragments, if_pos (by simp), take_left]
  split
  next isNext =>
    rw [drop_left] at isNext
    cases isNext
  next id rest isNext =>
    rw [drop_left] at isNext
    cases isNext
    rw [if_neg (not_not.mpr rfl)]
    rfl

theorem overwrite_append (small : done.length < 2 ^ 16) :
    overwrite (done ++ replicate body.length 0) (ofNat done.length) body = done ++ body := by
  have isLength : (ofNat done.length).toNat = done.length := toNat_ofNat_of_lt' small
  rw [overwrite, isLength, take_left, drop_eq_nil_of_le (by simp), append_nil]

open WifiInformationElement in
/-- All fragments are copied, one behind the other. -/
theorem copyFragments_spec (isBody : ∀ body ∈ bodies, body.length ≤ 255) (isOther : other.head? ≠ some ieFragment)
    (fits : (done ++ body ++ bodies.flatten).length < 2 ^ 16) :
    copyFragments (done ++ replicate body.length 0) (ofNat done.length) body.length
        (body ++ (fragments bodies ++ other)) =
      some (done ++ body ++ bodies.flatten, ofNat (done ++ body ++ bodies.flatten).length, other) := by
  induction bodies generalizing done body with
  | nil =>
    simp only [flatten_nil, append_nil, length_append] at fits
    rw [fragments_nil, nil_append, copyFragments_stop _ _ isOther, overwrite_append (by omega), flatten_nil,
      append_nil, length_append, ofNat_add]
  | cons next bodies ih =>
    have isNext : (UInt8.ofNat next.length).toNat = next.length :=
      UInt8.toNat_ofNat_of_lt' (lt_succ_of_le (isBody next mem_cons_self))
    have small : done.length < 2 ^ 16 := by
      simp only [length_append] at fits
      omega
    have assembled : done ++ body ++ (next :: bodies).flatten = done ++ body ++ next ++ bodies.flatten := by
      rw [flatten_cons, ← append_assoc]
    rw [assembled] at fits ⊢
    have copied := ih (fun body mem => isBody body (mem_cons_of_mem _ mem)) fits
    rw [fragments_cons, frame, cons_append, cons_append, cons_append, cons_append,
      copyFragments_next, overwrite_append small, isNext, ← ofNat_add, ← length_append]
    rw [← append_assoc] at copied
    exact copied

namespace WifiInformationElement

variable {Field : Type*} {element : WifiInformationElement Field} {field : Field}
    {source : List UInt8} {count index : Nat}

/-- The codec of the subclass is right about this field. -/
structure RoundTrips (element : WifiInformationElement Field) (field : Field) : Prop where
  size : (element.informationFieldSize field).toNat =
    (element.extension ++ element.serializeInformationField field).length
  read : ∀ rest, element.deserializeInformationField (element.serializeInformationField field ++ rest)
    (UInt16.ofNat (element.serializeInformationField field).length) = some field

theorem serializeFull_spec (later : index ≠ 0) (enough : 255 * count ≤ source.length) :
    ∃ bodies, element.serializeFull count index source = (fragments bodies, source.drop (255 * count)) ∧
      bodies.flatten = source.take (255 * count) ∧ ∀ body ∈ bodies, body.length = 255 := by
  induction count generalizing index source with
  | zero => exact ⟨[], rfl, rfl, fun body mem => nomatch mem⟩
  | succ count ih =>
    have left : 255 * count ≤ (source.drop 255).length := by
      rw [length_drop]
      omega
    obtain ⟨bodies, written, isSource, full⟩ := ih (succ_ne_zero index) left
    have length : (source.take 255).length = 255 := by
      rw [length_take]
      omega
    have total : 255 * (count + 1) = 255 + 255 * count := by omega
    refine ⟨source.take 255 :: bodies, ?_, ?_, ?_⟩
    · rw [serializeFull]
      simp only [if_neg later, length_nil]
      rw [written, fragments_cons, frame, length, drop_drop, total]
      rfl
    · rw [flatten_cons, isSource, total, take_add]
    · exact forall_mem_cons.mpr ⟨length, full⟩

theorem length_extension_le (element : WifiInformationElement Field) : element.extension.length ≤ 1 := by
  unfold extension
  split
  · exact le_refl 1
  · exact zero_le 1

theorem serialize_short (codec : element.RoundTrips field)
    (short : (element.extension ++ element.serializeInformationField field).length ≤ 255) :
    element.serialize field =
      frame element.elementId (element.extension ++ element.serializeInformationField field) := by
  have isSize := codec.size
  have notLong : ¬ 255 < element.informationFieldSize field := by
    rw [lt_iff_toNat_lt, isSize]
    exact not_lt.mpr short
  have octet : (element.informationFieldSize field).toUInt8 =
      UInt8.ofNat (element.extension ++ element.serializeInformationField field).length := by
    rw [← isSize]
    rfl
  rw [serialize]
  simp only [if_neg notLong, octet]
  rfl

/-- After the first octets come as many full fragments as there are and one more. -/
theorem serializeFull_split (element : WifiInformationElement Field) {written : List UInt8}
    {remainder : Nat} (zeros : Nat)
    (isLength : element.extension.length + written.length = 255 * (count + 1) + remainder) :
    ∃ head bodies last, written = head ++ (bodies.flatten ++ last) ∧ element.extension.length + head.length = 255 ∧
      last.length = remainder ∧ (∀ body ∈ bodies, body.length = 255) ∧
      element.serializeFull (count + 1) 0 (written ++ replicate zeros 0) =
        (frame element.elementId (element.extension ++ head) ++ fragments bodies, last ++ replicate zeros 0) := by
  have small := length_extension_le element
  have inside : 255 - element.extension.length ≤ written.length := by omega
  have isRest : (written.drop (255 - element.extension.length)).length = 255 * count + remainder := by
    rw [length_drop]
    omega
  have enough : 255 * count ≤ (written.drop (255 - element.extension.length) ++ replicate zeros 0).length := by
    rw [length_append, isRest, Nat.add_assoc]
    exact Nat.le_add_right _ _
  obtain ⟨bodies, serialized, isFlat, full⟩ :=
    @serializeFull_spec Field element _ count 1 Nat.one_ne_zero enough
  rw [take_append_of_le_length (isRest ▸ Nat.le_add_right _ _)] at isFlat
  rw [drop_append_of_le_length (isRest ▸ Nat.le_add_right _ _)] at serialized
  have isHead : element.extension.length + (written.take (255 - element.extension.length)).length = 255 := by
    rw [length_take]
    omega
  refine ⟨written.take (255 - element.extension.length), bodies,
    (written.drop (255 - element.extension.length)).drop (255 * count), ?_, isHead, ?_, full, ?_⟩
  · rw [isFlat, take_append_drop, take_append_drop]
  · rw [length_drop, isRest, Nat.add_sub_cancel_left]
  · have octet : (255 : UInt8) =
      UInt8.ofNat (element.extension ++ written.take (255 - element.extension.length)).length := by
      rw [length_append, isHead]
      rfl
    rw [serializeFull]
    simp only [if_true, Nat.zero_add]
    rw [take_append_of_le_length inside, drop_append_of_le_length inside, serialized, frame, ← octet]
    simp only [cons_append, append_assoc]

theorem serialize_long (codec : element.RoundTrips field)
    (long : 255 < (element.extension ++ element.serializeInformationField field).length) :
    ∃ head bodies, element.serialize field = frame element.elementId (element.extension ++ head) ++ fragments bodies ∧
      element.serializeInformationField field = head ++ bodies.flatten ∧ Shape (element.extension ++ head) bodies := by
  have isSize := codec.size
  have notShort : 255 < element.informationFieldSize field := by
    rw [UInt16.lt_iff_toNat_lt, isSize]
    exact long
  have isWritten : element.serialize field = element.serializeFragments field (element.informationFieldSize field) := by
    rw [serialize]
    exact if_pos notShort
  have isQuotient : (element.informationFieldSize field / 255).toNat =
    (element.informationFieldSize field).toNat / 255 := by
    rw [UInt16.toNat_div]
    rfl
  have isRemainder : (element.informationFieldSize field % 255).toNat =
    (element.informationFieldSize field).toNat % 255 := by
    rw [UInt16.toNat_mod]
    rfl
  rw [isWritten, serializeFragments, isQuotient, isRemainder, isSize]
  rw [length_append] at long ⊢
  generalize element.serializeInformationField field = written at long
  obtain ⟨count, isCount⟩ : ∃ count, (element.extension.length + written.length) / 255 = count + 1 :=
    ⟨_, (succ_pred_eq_of_pos (by omega)).symm⟩
  have isLength : element.extension.length + written.length = 255 * (count + 1) +
      (element.extension.length + written.length) % 255 := by omega
  obtain ⟨head, bodies, last, split, isHead, isLast, full, serialized⟩ :=
    serializeFull_split element (element.extension.length + written.length - written.length) isLength
  rw [isCount, serialized, ← isLast]
  dsimp only
  rw [take_left]
  have isFirst : (element.extension ++ head).length = 255 := by rw [length_append, isHead]
  split
  · next pos =>
      refine ⟨head, bodies ++ [last], ?_, ?_, isFirst.le, fun _ => isFirst, ?_, ?_⟩
      · rw [fragments_append, append_assoc, fragments_cons, fragments_nil, append_nil]
        rfl
      · rw [split, flatten_append, flatten_singleton]
      · intro body mem
        rcases mem_append.mp mem with isFull | isLastBody
        · rw [full body isFull]
          exact ⟨by omega, le_refl _⟩
        · rw [mem_singleton.mp isLastBody]
          exact ⟨pos, by omega⟩
      · rw [dropLast_concat]
        exact full
  · next zero =>
      have nothing : last = [] := length_eq_zero_iff.mp (by omega)
      refine ⟨head, bodies, rfl, ?_, isFirst.le, fun _ => isFirst, ?_, ?_⟩
      · rw [split, nothing, append_nil]
      · intro body mem
        rw [full body mem]
        exact ⟨by omega, le_refl _⟩
      · exact fun body mem => full body (dropLast_subset bodies mem)

theorem serialize_spec (codec : element.RoundTrips field) :
    ∃ head bodies, element.serialize field = frame element.elementId (element.extension ++ head) ++ fragments bodies ∧
      element.serializeInformationField field = head ++ bodies.flatten ∧ Shape (element.extension ++ head) bodies := by
  rcases lt_or_ge 255 (element.extension ++ element.serializeInformationField field).length with long | short
  · exact serialize_long codec long
  · refine ⟨element.serializeInformationField field, [], ?_, (append_nil _).symm, short,
      fun some => absurd rfl some, ?_, ?_⟩
    · rw [serialize_short codec short, fragments_nil, append_nil]
    · exact fun body mem => nomatch mem
    · exact fun body mem => nomatch mem

theorem getSerializedSize_eq (codec : element.RoundTrips field)
    (fits : (element.serializeInformationField field).length ≤ 65000) :
    (element.getSerializedSize field).toNat = (element.serialize field).length := by
  have isSize := codec.size
  have small := length_extension_le element
  have isShort : element.informationFieldSize field ≤ 255 ↔
      (element.extension ++ element.serializeInformationField field).length ≤ 255 := by
    rw [UInt16.le_iff_toNat_le, isSize]
    exact Iff.rfl
  obtain ⟨head, bodies, serialized, split, shape⟩ := serialize_spec codec
  have body : element.extension ++ element.serializeInformationField field =
    (element.extension ++ head) ++ bodies.flatten := by
    rw [split, append_assoc]
  have total : (element.serialize field).length =
      2 * (bodies.length + 1) + (element.extension ++ element.serializeInformationField field).length := by
    simp only [serialized, body, length_append, length_fragments, frame, length_cons]
    omega
  rw [length_append] at total isShort isSize
  rw [getSerializedSize]
  dsimp only
  split
  next short =>
    have isShortBody := isShort.mp short
    have none : bodies = [] := by
      apply shape.eq_nil
      rw [← body, length_append]
      exact isShortBody
    rw [UInt16.toNat_ofNat', isSize, total, none, length_nil]
    omega
  next long =>
    have isLong : 255 < (element.extension ++ head ++ bodies.flatten).length := by
      rw [← body, length_append]
      exact not_le.mp fun short => long (isShort.mpr short)
    have count := shape.length_eq isLong
    rw [← body, length_append] at count
    rw [UInt16.toNat_ofNat', UInt16.toNat_div, UInt16.toNat_mod, isSize, total]
    have number : (255 : UInt16).toNat = 255 := rfl
    rw [number]
    split at count <;> rename_i remains
    · rw [if_pos remains]
      omega
    · rw [if_neg remains]
      omega

theorem doDeserialize_spec {head : List UInt8} (shape : Shape (element.extension ++ head) bodies)
    (isOther : other.head? ≠ some ieFragment) (fits : (head ++ bodies.flatten).length < 2 ^ 16) :
    ∃ rest, element.doDeserialize (head ++ (fragments bodies ++ other)) (UInt16.ofNat head.length) =
      some (.present (head ++ bodies.flatten ++ rest) (UInt16.ofNat (head ++ bodies.flatten).length) other) := by
  have isLength : (UInt16.ofNat head.length).toNat = head.length := by
    apply UInt16.toNat_ofNat_of_lt'
    rw [length_append] at fits
    exact lt_of_le_of_lt (le_add_right _ _) fits
  rw [doDeserialize, isLength, next_append, bind_some]
  cases bodies with
  | nil =>
    refine ⟨other, ?_⟩
    rw [fragments_nil, nil_append, flatten_nil, append_nil]
    exact if_pos (.inr isOther)
  | cons body bodies =>
    have isFirst := shape.first_full (cons_ne_nil _ _)
    have isLimit : UInt16.ofNat head.length = if element.elementId = ieExtension then 254 else 255 := by
      rw [length_append, extension] at isFirst
      split at isFirst
      next isExtension =>
        have isHead : head.length = 254 := by
          rw [length_singleton] at isFirst
          omega
        rw [if_pos isExtension, isHead]
        rfl
      next notExtension =>
        have isHead : head.length = 255 := by
          rw [length_nil] at isFirst
          omega
        rw [if_neg notExtension, isHead]
        rfl
    have isFragment : (fragments (body :: bodies) ++ other).head? = some ieFragment := rfl
    have copied :=
      @copyFragments_spec head [] other (body :: bodies)
        (fun body mem => (shape.le body mem).2) isOther fits
    refine ⟨[], ?_⟩
    rw [nil_append, nil_append] at copied
    dsimp only
    rw [← isLimit, append_nil]
    refine (if_neg ?_).trans ((if_pos rfl).trans (congrArg (Option.map _) copied))
    exact not_or.mpr ⟨UInt16.lt_irrefl _, not_not.mpr isFragment⟩

theorem deserializeIfPresent_spec (codec : element.RoundTrips field)
    (fits : (element.serializeInformationField field).length ≤ 65000) (isOther : other.head? ≠ some ieFragment) :
    ∃ rest, element.deserializeIfPresent (element.serialize field ++ other) =
      some (.present (element.serializeInformationField field ++ rest)
        (UInt16.ofNat (element.serializeInformationField field).length) other) := by
  obtain ⟨head, bodies, serialized, split, shape⟩ := serialize_spec codec
  have small : (head ++ bodies.flatten).length < 2 ^ 16 := by
    rw [← split]
    omega
  obtain ⟨rest, isRead⟩ := doDeserialize_spec shape isOther small
  refine ⟨rest, ?_⟩
  have isLength : (element.extension ++ head).length ≤ 255 := shape.first_le
  rw [serialized, split, ← isRead, frame]
  have octet : (UInt8.ofNat (element.extension ++ head).length).toUInt16 =
    UInt16.ofNat (element.extension ++ head).length := by
    apply UInt16.toNat_inj.mp
    rw [UInt8.toNat_toUInt16, UInt8.toNat_ofNat_of_lt' (lt_succ_of_le isLength),
      UInt16.toNat_ofNat_of_lt' (lt_of_le_of_lt isLength (by decide))]
  by_cases isExtension : element.elementId = ieExtension
  · rw [extension, if_pos isExtension] at octet ⊢
    have oneLess : UInt16.ofNat ([element.elementIdExt] ++ head).length - 1 = UInt16.ofNat head.length := by
      rw [length_append, length_singleton, add_comm, UInt16.ofNat_add]
      exact UInt16.add_sub_cancel _ 1
    simp only [deserializeIfPresent, cons_append, nil_append, readU8, bind_some, if_pos isExtension]
    rw [if_neg (not_not.mpr rfl), if_neg (not_not.mpr rfl), append_assoc]
    rw [← oneLess, ← octet]
    rfl
  · rw [extension, if_neg isExtension] at octet ⊢
    simp only [deserializeIfPresent, cons_append, nil_append, readU8, bind_some, if_neg isExtension]
    rw [if_neg (not_not.mpr rfl), append_assoc]
    rw [nil_append] at octet
    rw [octet]

theorem deserializeIfPresent_other {id : UInt8} {rest : List UInt8} (isOther : id ≠ element.elementId) :
    element.deserializeIfPresent (id :: rest) = some (.absent (id :: rest)) :=
  if_pos isOther

theorem deserializeIfPresent_otherExt {octet ext : UInt8} {rest : List UInt8}
    (isExtension : element.elementId = ieExtension)
    (isOther : ext ≠ element.elementIdExt) :
    element.deserializeIfPresent (ieExtension :: octet :: ext :: rest) =
      some (.absent (ieExtension :: octet :: ext :: rest)) := by
  simp only [deserializeIfPresent, readU8, bind_some, if_pos isExtension, if_pos isOther]
  exact if_neg (not_not.mpr isExtension.symm)

/-- Elements of any length are read as they have been written. -/
theorem round_trip (element : WifiInformationElement Field) (field : Field) (codec : element.RoundTrips field)
    (fits : (element.serializeInformationField field).length ≤ 65000) :
    (element.getSerializedSize field).toNat = (element.serialize field).length ∧
      (∃ first bodies, element.serialize field = frame element.elementId first ++ fragments bodies ∧
        Shape first bodies) ∧
      (∀ other, other.head? ≠ some ieFragment -> ∃ start length,
        element.deserializeIfPresent (element.serialize field ++ other) = some (.present start length other) ∧
          length.toNat = (element.serializeInformationField field).length ∧
          start.take length.toNat = element.serializeInformationField field ∧
          element.deserializeInformationField start length = some field) ∧
      (∀ id rest, id ≠ element.elementId -> element.deserializeIfPresent (id :: rest) = some (.absent (id :: rest))) ∧
      ∀ octet ext rest, element.elementId = ieExtension -> ext ≠ element.elementIdExt ->
        element.deserializeIfPresent (ieExtension :: octet :: ext :: rest) =
          some (.absent (ieExtension :: octet :: ext :: rest)) := by
  refine ⟨getSerializedSize_eq codec fits, ?_, ?_, fun id rest => deserializeIfPresent_other,
    fun octet ext rest => deserializeIfPresent_otherExt⟩
  · obtain ⟨head, bodies, serialized, split, shape⟩ := serialize_spec codec
    exact ⟨_, bodies, serialized, shape⟩
  · intro other isOther
    obtain ⟨rest, isRead⟩ := deserializeIfPresent_spec codec fits isOther
    have isLength : (UInt16.ofNat (element.serializeInformationField field).length).toNat =
        (element.serializeInformationField field).length :=
      UInt16.toNat_ofNat_of_lt' (Nat.lt_of_le_of_lt fits (by decide))
    refine ⟨_, _, isRead, isLength, ?_, codec.read rest⟩
    rw [isLength, take_left]

/-- An element with an extension whose field is the octets it is given. -/
def octets : WifiInformationElement (List UInt8) where
  elementId := ieExtension
  elementIdExt := 107
  informationFieldSize field := UInt16.ofNat (field.length + 1)
  serializeInformationField field := field
  deserializeInformationField start length := some (start.take length.toNat)

theorem octets_roundTrips (field : List UInt8) (fits : field.length ≤ 65000) : octets.RoundTrips field where
  size := by
    have isLength : (octets.extension ++ octets.serializeInformationField field).length = field.length + 1 := by
      rw [length_append, add_comm]
      rfl
    rw [isLength]
    exact toNat_ofNat_of_lt' (lt_of_le_of_lt (succ_le_succ fits) (by decide))
  read rest := by
    have isLength : (ofNat field.length).toNat = field.length :=
      toNat_ofNat_of_lt' (lt_of_le_of_lt fits (by decide))
    change some ((field ++ rest).take (ofNat field.length).toNat) = some field
    rw [isLength, take_left]

theorem round_trip_octets : ∃ start length,
    octets.deserializeIfPresent (octets.serialize (replicate 600 7) ++ [7]) = some (.present start length [7]) ∧
      start.take length.toNat = replicate 600 7 := by
  have short : (octets.serializeInformationField (replicate 600 7)).length ≤ 65000 := by
    change (replicate 600 7).length ≤ 65000
    rw [length_replicate]
    decide
  obtain ⟨-, -, reads, -⟩ := round_trip octets (replicate 600 7) (octets_roundTrips _ short) short
  obtain ⟨start, length, isRead, -, isStart, -⟩ := reads [7] (by decide)
  exact ⟨start, length, isRead, isStart⟩

end WifiInformationElement

end Ns3.Wifi
