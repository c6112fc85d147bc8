import Ns3.Nr.Rrc.Asn1RoundTrip

/-!
# Header objects that are used again

An object is clean if no bits are left over in it. Messages of whole octets keep it so, and others
do not.
-/

namespace Ns3.Nr.Asn1Header

open Semantics Network List Option

/-- The octets of a message. -/
def bytes (header : Asn1Header) (items : List Item) : Option (List UInt8) :=
  (header.setMessage.serialize items).map Prod.fst

def readItems (header : Asn1Header) (targets : List Item) (buffer : List UInt8) : Option (List Item) :=
  (header.deserializeItems buffer targets).map Prod.fst

/-- The variables of the items with one value hold that value already. -/
def Known (items targets : List Item) : Prop :=
  zipWith readBack items targets = items

variable {header next other after : Asn1Header} {buffer rest : List UInt8} {items targets : List Item}
  {trace : List (Asn1Header × Action)} {action : Action} {size : Nat}

/-- A message in which each item is written and read with whole octets together. -/
def WholeOctets : Action -> Prop
  | .write items => (∀ item ∈ items, Valid item) ∧ (items.flatMap itemBits).length % 8 = 0
  | .read targets buffer => ∃ (items : List Item) (more : List Bool), (∀ item ∈ items, Valid item) ∧
      targets.map Sigma.fst = items.map Sigma.fst ∧ buffer.flatMap octetBits = items.flatMap itemBits ++ more ∧
      (items.flatMap itemBits).length % 8 = 0

theorem bytes_eq (header : Asn1Header) (items : List Item) : header.bytes items =
    bytes ⟨header.serializationPendingBits, header.numSerializationPendingBits, false, []⟩ items := rfl

theorem bytes_clean (clean : header.Clean) (items : List Item) : header.bytes items = bytes {} items := by
  rw [bytes_eq, clean.1, clean.2]

theorem write_clean (clean : header.Clean) (valid : ∀ item ∈ items, Valid item) :
    ∃ buffer after padding, header.setMessage.serialize items = some (buffer, after) ∧
      buffer.flatMap octetBits = items.flatMap itemBits ++ replicate padding false ∧
      ((items.flatMap itemBits).length % 8 = 0 -> after.Clean) := by
  have empty : Writes { header.setMessage with serializationResult := [] } [] := by
    have pending := clean_iff_pending.mp clean
    exact ⟨[], ⟨pending.count, pending.octet⟩, by simp, rfl⟩
  obtain ⟨next, isNext, written⟩ := empty.serializeItems valid
  rw [nil_append] at written
  obtain ⟨padding, -, isResult, -, whole⟩ := written.finalizeSerialization
  refine ⟨_, _, padding, ?_, isResult, whole⟩
  rw [serialize, getSerialized, if_neg (by simp [setMessage]), preSerialize, isNext]
  rfl

/-- What is left over is written with a boolean in one octet. -/
theorem bytes_boolean {count : Nat} (few : count < 8) (octet : UInt8) (value : Bool) :
    bytes ⟨octet, count, false, []⟩ [⟨.boolean, value⟩] =
      some [octet ||| if value then 0x80 >>> UInt8.ofNat count else 0] := by
  have gathered := gatherOctet_toBitVec (octet ||| if value then 0x80 >>> UInt8.ofNat count else 0)
  rw [← gathered]
  rcases count with _ | _ | _ | _ | _ | _ | _ | _ | count
  case succ.succ.succ.succ.succ.succ.succ.succ => omega
  case succ.succ.succ.succ.succ.succ.succ.zero =>
    rw [gathered]
    cases value <;> rfl
  all_goals cases value <;> rfl

theorem clean_of_bytes (few : header.numSerializationPendingBits < 8)
    (same : ∀ items, (∀ item ∈ items, Valid item) -> header.bytes items = bytes {} items) : header.Clean := by
  have shows (value : Bool) : (header.serializationPendingBits |||
      if value then 0x80 >>> UInt8.ofNat header.numSerializationPendingBits else 0) = if value then 0x80 else 0 := by
    have fresh : bytes {} [⟨.boolean, value⟩] = some [if value then 0x80 else 0] := by cases value <;> rfl
    have isSame := same [⟨.boolean, value⟩] fun item mem => by
      obtain rfl := mem_singleton.mp mem
      trivial
    rw [bytes_eq, bytes_boolean few, fresh] at isSame
    exact (List.cons.inj (some.inj isSame)).1
  have octet : header.serializationPendingBits = 0 := by simpa using shows false
  have mask := shows true
  rw [octet] at mask
  have all : ∀ count : Fin 8, (0 : UInt8) ||| 0x80 >>> UInt8.ofNat count = 0x80 -> count = 0 := by decide
  exact ⟨congrArg Fin.val (all ⟨_, few⟩ mask), octet⟩

theorem finalizeSerialization_count (header : Asn1Header) :
    header.finalizeSerialization.numSerializationPendingBits = 0 := by
  unfold finalizeSerialization
  by_cases some : 0 < header.numSerializationPendingBits
  · rw [if_pos some]
    rfl
  · rw [if_neg some]
    exact Nat.le_zero.mp (Nat.not_lt.mp some)

/-- Two headers with the same bits left to read. -/
def SameRest (header other : Asn1Header) : Prop :=
  header.numSerializationPendingBits = other.numSerializationPendingBits ∧
    (header.numSerializationPendingBits ≠ 0 -> header.serializationPendingBits = other.serializationPendingBits)

theorem SameRest.symm (same : SameRest header other) : SameRest other header :=
  ⟨same.1.symm, fun some => (same.2 (same.1 ▸ some)).symm⟩

/-- A method that reads depends on the bits that are left only, and leaves less than an octet. -/
def ReadsRest {Value : Type} (read : Asn1Header -> List UInt8 -> Option (Value × Asn1Header × List UInt8)) : Prop :=
  ∀ header other buffer value after rest, SameRest header other -> read header buffer = some (value, after, rest) ->
    (∃ further, read other buffer = some (value, further, rest) ∧ SameRest after further) ∧
      (header.numSerializationPendingBits < 8 -> after.numSerializationPendingBits < 8)

variable {Value : Type}

theorem ReadsRest.pure (value : Value) : ReadsRest fun header buffer => some (value, header, buffer) := by
  intro header other buffer result after rest same isResult
  obtain ⟨rfl, rfl, rfl⟩ : value = result ∧ header = after ∧ buffer = rest := by simpa using isResult
  exact ⟨⟨other, rfl, same⟩, id⟩

variable {Further : Type} {read : Asn1Header -> List UInt8 -> Option (Value × Asn1Header × List UInt8)}

theorem ReadsRest.bind {first : Asn1Header -> List UInt8 -> Option (Value × Asn1Header × List UInt8)}
    {second : Value -> Asn1Header -> List UInt8 -> Option (Further × Asn1Header × List UInt8)} (reads : ReadsRest first)
    (further : ∀ value, ReadsRest (second value)) :
    ReadsRest fun header buffer => (first header buffer).bind fun result => second result.1 result.2.1 result.2.2 := by
  intro header other buffer value after rest same isResult
  obtain ⟨⟨middle, between, left⟩, isFirst, isSecond⟩ := bind_eq_some_iff.mp isResult
  obtain ⟨⟨otherBetween, isOther, sameBetween⟩, few⟩ := reads header other buffer middle between left same isFirst
  obtain ⟨⟨last, isLast, sameLast⟩, fewer⟩ :=
    further middle between otherBetween left value after rest sameBetween isSecond
  refine ⟨⟨last, ?_, sameLast⟩, fun some => fewer (few some)⟩
  dsimp only
  rw [isOther]
  exact isLast

theorem ReadsRest.map (reads : ReadsRest read)
    (f : Value -> Further) : ReadsRest fun header buffer =>
    (read header buffer).map fun result => (f result.1, result.2) := by
  have bound := reads.bind fun value => ReadsRest.pure (f value)
  simpa only [map_eq_bind, Function.comp_def] using bound

theorem takePending_congr {data : BitVec size} {count : Nat} (same : SameRest header other) :
    (takePending count other data).1 = (takePending count header data).1 ∧
      (takePending count other data).2.2 = (takePending count header data).2.2 ∧
      SameRest (takePending count header data).2.1 (takePending count other data).2.1 ∧
      (takePending count header data).2.1.numSerializationPendingBits ≤ header.numSerializationPendingBits := by
  induction count generalizing header other data with
  | zero => exact ⟨rfl, rfl, same, Nat.le_refl _⟩
  | succ count ih =>
    unfold takePending
    rw [← same.1]
    by_cases some : 0 < header.numSerializationPendingBits
    · rw [if_pos some, if_pos some, ← same.2 (by omega)]
      obtain ⟨left, result, further, fewer⟩ := @ih { header with
          numSerializationPendingBits := header.numSerializationPendingBits - 1
          serializationPendingBits := header.serializationPendingBits <<< 1 }
        { other with
          numSerializationPendingBits := header.numSerializationPendingBits - 1
          serializationPendingBits := header.serializationPendingBits <<< 1 }
        (setBit data count (header.serializationPendingBits &&& 0x80 ≠ 0)) ⟨rfl, fun _ => rfl⟩
      exact ⟨left, result, further, fewer.trans (Nat.sub_le _ _)⟩
    · rw [if_neg some, if_neg some]
      exact ⟨rfl, rfl, same, Nat.le_refl _⟩

theorem readOctets_readsRest (count : Nat) (data : BitVec size) :
    ReadsRest fun header buffer => readOctets count header data buffer := by
  intro header other buffer value after rest same isResult
  dsimp only at isResult ⊢
  induction count using Nat.strong_induction_on generalizing data buffer with
  | _ count ih =>
    by_cases none : count = 0
    · subst none
      rw [readOctets] at isResult ⊢
      obtain ⟨rfl, rfl, rfl⟩ : data = value ∧ header = after ∧ buffer = rest := by simpa using isResult
      exact ⟨⟨other, rfl, same⟩, id⟩
    · by_cases few : count < 8
      · cases buffer with
        | nil =>
          rcases count with _ | _ | _ | _ | _ | _ | _ | _ | count
          · exact absurd rfl none
          all_goals cases isResult
        | cons octet buffer =>
          rw [readOctets_rest (by omega) few] at isResult ⊢
          obtain ⟨rfl, rfl, rfl⟩ : _ = value ∧ _ = after ∧ buffer = rest := by simpa using isResult
          refine ⟨⟨_, rfl, rfl, fun _ => rfl⟩, fun _ => ?_⟩
          dsimp only
          omega
      · obtain ⟨left, rfl⟩ := Nat.exists_eq_add_of_le' (Nat.not_lt.mp few)
        cases buffer with
        | nil =>
          rw [readOctets] at isResult
          cases isResult
        | cons octet buffer =>
          rw [readOctets] at isResult ⊢
          exact ih left (by omega) _ _ isResult

theorem deserializeBitset_readsRest (data : BitVec size) :
    ReadsRest fun header buffer => header.deserializeBitset data buffer := by
  intro header other buffer value after rest same isResult
  obtain ⟨left, result, further, fewer⟩ := @takePending_congr header other size data size same
  dsimp only [deserializeBitset] at isResult ⊢
  rw [left, result]
  obtain ⟨isOther, bound⟩ := readOctets_readsRest _ _ _ _ _ _ _ _ further isResult
  exact ⟨isOther, fun few => bound (Nat.lt_of_le_of_lt fewer few)⟩

theorem deserializeBoolean_readsRest : ReadsRest deserializeBoolean :=
  (deserializeBitset_readsRest 0#1).map fun data => data.getLsbD 0

theorem deserializeInteger_readsRest (n nmin nmax : Int) :
    ReadsRest fun header buffer => header.deserializeInteger n nmin nmax buffer := by
  unfold deserializeInteger
  dsimp only
  generalize (if nmax < nmin then nmax else nmin) = lowest
  generalize (if nmax < nmin then nmin else nmax) = highest
  by_cases single : highest - lowest + 1 = 1
  · simp only [if_pos single]
    exact ReadsRest.pure n
  · simp only [if_neg single]
    by_cases bounds : 1 ≤ requiredBits (highest - lowest + 1) ∧ requiredBits (highest - lowest + 1) ≤ 28
    · simp only [if_pos bounds]
      exact (deserializeBitset_readsRest (0#(requiredBits (highest - lowest + 1)))).map fun data =>
        (data.toNat : Int) + lowest
    · simp only [if_neg bounds]
      intro header other buffer value after rest _ isResult
      cases isResult

/-- A method behind the extension marker. -/
theorem deserializeMarker_readsRest (isExtensionMarkerPresent : Bool) (reads : ReadsRest read) :
    ReadsRest fun header buffer => (header.deserializeMarker isExtensionMarkerPresent buffer).bind fun marked =>
      read marked.1 marked.2 := by
  cases isExtensionMarkerPresent with
  | false => exact reads
  | true =>
    have marked := deserializeBoolean_readsRest.bind fun _ => reads
    simpa only [deserializeMarker, if_true, bind_map, Function.comp_def] using marked

theorem deserializeItem_readsRest (target : Item) :
    ReadsRest fun header buffer => header.deserializeItem buffer target := by
  obtain ⟨field, old⟩ := target
  cases field with
  | bitstring size => exact deserializeBitset_readsRest old
  | boolean => exact deserializeBoolean_readsRest
  | sequence size isExtensionMarkerPresent =>
    exact deserializeMarker_readsRest isExtensionMarkerPresent (deserializeBitset_readsRest old)
  | sequenceOf nMax nMin => exact deserializeInteger_readsRest old nMin nMax
  | enum numElems => exact deserializeInteger_readsRest old 0 (numElems - 1)
  | choice numOptions isExtensionMarkerPresent =>
    exact deserializeMarker_readsRest isExtensionMarkerPresent (deserializeInteger_readsRest old 0 (numOptions - 1))
  | integer nmin nmax => exact deserializeInteger_readsRest old nmin nmax

theorem deserializeItems_readsRest (targets : List Item) :
    ReadsRest fun header buffer => header.deserializeItems buffer targets := by
  induction targets with
  | nil => exact ReadsRest.pure []
  | cons target targets ih =>
    exact (deserializeItem_readsRest target).bind fun value =>
      ih.map fun items => ⟨target.1, value⟩ :: items

theorem readItems_congr (same : SameRest header other) (targets : List Item) (buffer : List UInt8) :
    header.readItems targets buffer = other.readItems targets buffer := by
  unfold readItems
  cases isResult : header.deserializeItems buffer targets with
  | some result =>
    obtain ⟨⟨further, isOther, -⟩, -⟩ := deserializeItems_readsRest targets header other buffer _ _ _ same isResult
    dsimp only at isOther
    rw [isOther]
    rfl
  | none =>
    cases isOther : other.deserializeItems buffer targets with
    | none => rfl
    | some result =>
      obtain ⟨⟨further, isSame, -⟩, -⟩ :=
        deserializeItems_readsRest targets other header buffer _ _ _ same.symm isOther
      dsimp only at isSame
      rw [isSame] at isResult
      cases isResult

/-- The first bit that is left over is read in place of the first one of the message. -/
theorem readItems_pending (some : header.numSerializationPendingBits ≠ 0) (buffer : List UInt8) :
    header.readItems [⟨.boolean, false⟩] buffer =
      Option.some [⟨.boolean, decide (header.serializationPendingBits &&& 0x80 ≠ 0)⟩] := by
  have taken : takePending 1 header 0#1 = (0, { header with
        numSerializationPendingBits := header.numSerializationPendingBits - 1
        serializationPendingBits := header.serializationPendingBits <<< 1 },
      setBit 0#1 0 (header.serializationPendingBits &&& 0x80 ≠ 0)) := by
    rw [takePending, if_pos (by omega), takePending]
  have isRead : header.deserializeBoolean buffer = Option.some (decide (header.serializationPendingBits &&& 0x80 ≠ 0),
      { header with
        numSerializationPendingBits := header.numSerializationPendingBits - 1
        serializationPendingBits := header.serializationPendingBits <<< 1 }, buffer) := by
    rw [deserializeBoolean, deserializeBitset, taken]
    dsimp only
    rw [readOctets, map_some, getLsbD_setBit _ (by omega), if_pos rfl]
  rw [readItems, deserializeItems]
  change ((header.deserializeBoolean buffer).bind _).map _ = _
  rw [isRead]
  rfl

theorem step_count (few : header.numSerializationPendingBits < 8) (moves : step header action = some next) :
    next.numSerializationPendingBits < 8 := by
  cases action with
  | write items =>
    simp only [step, serialize, getSerialized, setMessage, preSerialize, Bool.false_eq_true, if_false,
      map_eq_some_iff] at moves
    obtain ⟨result, ⟨after, ⟨written, -, rfl⟩, rfl⟩, rfl⟩ := moves
    dsimp only
    rw [finalizeSerialization_count]
    omega
  | read targets buffer =>
    obtain ⟨result, isResult, rfl⟩ := map_eq_some_iff.mp moves
    exact (deserializeItems_readsRest targets header header buffer _ _ _ ⟨rfl, fun _ => rfl⟩ isResult).2 few

theorem step_clean (clean : header.Clean) (whole : WholeOctets action) (moves : step header action = some next) :
    next.Clean := by
  cases action with
  | write items =>
    obtain ⟨valid, even⟩ := whole
    obtain ⟨buffer, after, padding, written, -, kept⟩ := write_clean clean valid
    rw [step, written] at moves
    cases moves
    exact kept even
  | read targets buffer =>
    obtain ⟨items, more, valid, fields, isBuffer, even⟩ := whole
    have reads : Reads header buffer (items.flatMap itemBits ++ more) :=
      ⟨[], clean_iff_pending.mp clean, by simp, isBuffer.symm⟩
    obtain ⟨after, rest, isResult, bits, pending, few, isMore⟩ := reads.deserializeItems valid fields
    rw [step, isResult] at moves
    cases moves
    have length := congrArg List.length isBuffer
    rw [isMore, length_append, length_append, length_flatMap_octetBits, length_flatMap_octetBits] at length
    obtain rfl := eq_nil_of_length_eq_zero (by omega : bits.length = 0)
    exact clean_iff_pending.mpr pending

/-- What a fresh object has written is read back by a fresh one, except for variables of items with
one value that hold another one. A used object writes like a fresh one exactly if it is clean, and
reads like a fresh one exactly if no bits are pending. It stays clean as long as the messages have
whole octets. -/
theorem read_back_iff (run : system.Run trace header) :
    (∀ items targets, (∀ item ∈ items, Valid item) -> targets.map Sigma.fst = items.map Sigma.fst ->
      ∃ buffer, bytes {} items = some buffer ∧ (readItems {} targets buffer = some items ↔ Known items targets)) ∧
    ((∀ items, (∀ item ∈ items, Valid item) -> header.bytes items = bytes {} items) ↔ header.Clean) ∧
    ((∀ items targets buffer, (∀ item ∈ items, Valid item) -> targets.map Sigma.fst = items.map Sigma.fst ->
        bytes {} items = some buffer -> header.readItems targets buffer = readItems {} targets buffer) ↔
      header.numSerializationPendingBits = 0) ∧
    ((∀ entry ∈ trace, WholeOctets entry.2) -> header.Clean) := by
  have fresh : Clean {} := ⟨rfl, rfl⟩
  have few : header.numSerializationPendingBits < 8 :=
    run.invariant_of_guard (fun header => header.numSerializationPendingBits < 8) (fun _ _ => True)
      (fun header isInitial => by
        obtain rfl : header = {} := isInitial
        decide)
      (fun few _ transition => step_count few transition) fun _ _ => trivial
  have roundTrip : ∀ items targets, (∀ item ∈ items, Valid item) -> targets.map Sigma.fst = items.map Sigma.fst ->
      ∃ buffer, bytes {} items = some buffer ∧
        readItems {} targets buffer = some (zipWith readBack items targets) := by
    intro items targets valid fields
    obtain ⟨buffer, after, padding, written, isBuffer, -⟩ := write_clean fresh valid
    have reads : Reads {} buffer (items.flatMap itemBits ++ replicate padding false) :=
      ⟨[], clean_iff_pending.mp fresh, by simp, isBuffer.symm⟩
    obtain ⟨final, rest, isResult, -⟩ := reads.deserializeItems valid fields
    refine ⟨buffer, ?_, ?_⟩
    · rw [bytes, written]
      rfl
    · rw [readItems, isResult]
      rfl
  refine ⟨fun items targets valid fields => ?_, ⟨clean_of_bytes few, fun clean items _ => bytes_clean clean items⟩,
    ⟨fun same => ?_, fun none items targets buffer _ _ _ => ?_⟩, fun whole => ?_⟩
  · obtain ⟨buffer, written, isRead⟩ := roundTrip items targets valid fields
    refine ⟨buffer, written, ?_⟩
    rw [isRead, some_inj]
    rfl
  · by_contra some
    -- The message is a boolean that differs from the bit left over.
    obtain ⟨value, isValue⟩ : ∃ value, value = !decide (header.serializationPendingBits &&& 0x80 ≠ 0) := ⟨_, rfl⟩
    have valid : ∀ item ∈ [(⟨.boolean, value⟩ : Item)], Valid item := by
      intro item member
      obtain rfl := mem_singleton.mp member
      trivial
    obtain ⟨buffer, written, isRead⟩ := roundTrip [⟨.boolean, value⟩] [⟨.boolean, false⟩] valid rfl
    have isUsed := same [⟨.boolean, value⟩] [⟨.boolean, false⟩] buffer valid rfl written
    have isBack : zipWith readBack [(⟨.boolean, value⟩ : Item)] [⟨.boolean, false⟩] = [⟨.boolean, value⟩] := rfl
    rw [readItems_pending some, isRead, isBack, some_inj, List.cons.injEq, isValue] at isUsed
    have equal := eq_of_heq (Sigma.mk.inj isUsed.1).2
    simp at equal
  · exact readItems_congr ⟨none, fun some => absurd none some⟩ targets buffer
  · exact run.invariant_of_guard Clean (fun _ action => WholeOctets action)
      (fun header isInitial => by
        obtain rfl : header = {} := isInitial
        exact fresh)
      (fun clean whole transition => step_clean clean whole transition) whole

/-- A message of eight bits is written, and the object writes the next one as a fresh one does. -/
theorem read_back_iff_octet : ∃ header, system.exec {} [.write [⟨.integer 0 255, 170⟩]] = some header ∧
    ∀ items, (∀ item ∈ items, Valid item) -> header.bytes items = bytes {} items := by
  obtain ⟨header, written⟩ := isSome_iff_exists.mp
    (show (system.exec {} [.write [⟨.integer 0 255, 170⟩]]).isSome by decide +kernel)
  refine ⟨header, written, ?_⟩
  apply (read_back_iff (System.run_of_exec rfl written)).2.1.mpr
  apply (read_back_iff (System.run_of_exec rfl written)).2.2.2
  intro entry member
  have isAction := System.action_mem_of_mem_steps member
  rw [mem_singleton.mp isAction]
  refine ⟨fun item isItem => ?_, by decide +kernel⟩
  rw [mem_singleton.mp isItem]
  exact (by decide : InRange 170 0 255)

/-- An integer from 5 to 5 is not read, and the octet of a boolean depends on the message before. -/
theorem single_value_and_reused_object : (∃ buffer, bytes {} [⟨.integer 5 5, 5⟩] = some buffer ∧
      readItems {} [⟨.integer 5 5, 0⟩] buffer = some [⟨.integer 5 5, 0⟩]) ∧
    ∃ header, system.exec {} [.write [⟨.boolean, true⟩]] = some header ∧
      header.bytes [⟨.boolean, false⟩] = some [0x80] ∧ bytes {} [⟨.boolean, false⟩] = some [0x00] := by
  refine ⟨⟨_, rfl, rfl⟩, _, rfl, ?_, ?_⟩ <;> decide +kernel

end Ns3.Nr.Asn1Header
