import Ns3.Semantics.Run
import Mathlib.Data.Nat.Log

/-!
# The ASN.1 header

Items of a message are packed into octets, the first bit being the highest one. The bits that do not
fill an octet yet are pending. The reader keeps the bits of an octet that are not read yet in the
same place.
-/

namespace Ns3.Nr

open Semantics

/-- `NrAsn1Header`. -/
structure Asn1Header where
  serializationPendingBits : UInt8 := 0
  numSerializationPendingBits : Nat := 0
  isDataSerialized : Bool := false
  serializationResult : List UInt8 := []
  deriving DecidableEq

namespace Asn1Header

/-- `WriteOctet` behind what has been written. -/
def writeOctet (header : Asn1Header) (octet : UInt8) : Asn1Header :=
  { header with serializationResult := header.serializationResult ++ [octet] }

/-- `mask = (mask >> 1) & (~mask)`. -/
def nextMask (mask : UInt8) : UInt8 :=
  (mask >>> 1) &&& ~~~mask

variable {size : Nat}

/-- The pending bits are written when they fill an octet. -/
def flushOctet (header : Asn1Header) : Asn1Header :=
  if 8 ≤ header.numSerializationPendingBits then
    { header.writeOctet header.serializationPendingBits with
      numSerializationPendingBits := 0
      serializationPendingBits := 0 }
  else header

/-- The loop that appends the first bits to the pending ones, with the number of bits that are left.
-/
def completeOctet (data : BitVec size) : Nat -> UInt8 -> Asn1Header -> Nat × Asn1Header
  | 0, _, header => (0, header.flushOctet)
  | pendingBits + 1, mask, header =>
    if header.numSerializationPendingBits < 8 then
      completeOctet data pendingBits (nextMask mask) { header with
        serializationPendingBits :=
          header.serializationPendingBits ||| if data.getLsbD pendingBits then mask else 0
        numSerializationPendingBits := header.numSerializationPendingBits + 1 }
    else (pendingBits + 1, header.flushOctet)

/-- The loop over the bits of an octet, from the lowest one. -/
def gatherOctet (data : BitVec size) (pendingBits : Nat) : Nat -> UInt8 -> UInt8 -> UInt8
  | 0, _, octetToWrite => octetToWrite
  | j + 1, mask, octetToWrite =>
    gatherOctet data pendingBits j ((mask <<< 1) &&& ~~~mask)
      (octetToWrite ||| if data.getLsbD (pendingBits - (j + 1)) then mask else 0)

/-- The loop that stores the bits that are left as pending ones. -/
def storeBits (data : BitVec size) : Nat -> UInt8 -> UInt8 -> UInt8
  | 0, _, serializationPendingBits => serializationPendingBits
  | pendingBits + 1, mask, serializationPendingBits =>
    storeBits data pendingBits (nextMask mask)
      (serializationPendingBits ||| if data.getLsbD pendingBits then mask else 0)

/-- The loop over the octets, and what is left after them. -/
def writeOctets (data : BitVec size) : Nat -> Asn1Header -> Asn1Header
  | 0, header => header
  | pendingBits + 8, header =>
    writeOctets data pendingBits (header.writeOctet (gatherOctet data (pendingBits + 8) 8 1 0))
  | pendingBits, header =>
    { header with
      numSerializationPendingBits := pendingBits
      serializationPendingBits := storeBits data pendingBits 0x80 header.serializationPendingBits }

/-- `SerializeBitset`. -/
def serializeBitset (header : Asn1Header) (data : BitVec size) : Asn1Header :=
  if size = 0 then header
  else if size ≤ 65536 then
    if 0 < header.numSerializationPendingBits then
      let (pendingBits, header) :=
        completeOctet data (size % 256) (0x80 >>> UInt8.ofNat header.numSerializationPendingBits) header
      writeOctets data pendingBits header
    else writeOctets data (size % 256) header
  else header

/-- `set` of a bitset. -/
def setBit (data : BitVec size) (position : Nat) (bit : Bool) : BitVec size :=
  if bit then data ||| BitVec.twoPow size position else data &&& ~~~BitVec.twoPow size position

/-- The loop that reads pending bits, with the number of bits that are left to read. -/
def takePending : Nat -> Asn1Header -> BitVec size -> Nat × Asn1Header × BitVec size
  | 0, header, data => (0, header, data)
  | bitsToRead + 1, header, data =>
    if 0 < header.numSerializationPendingBits then
      takePending bitsToRead { header with
          numSerializationPendingBits := header.numSerializationPendingBits - 1
          serializationPendingBits := header.serializationPendingBits <<< 1 }
        (setBit data bitsToRead (header.serializationPendingBits &&& 0x80 ≠ 0))
    else (bitsToRead + 1, header, data)

/-- The loop that sets bits from an octet, down to a position. -/
def setBits (octet : UInt8) (lowest : Nat) : Nat -> UInt8 -> BitVec size -> BitVec size
  | 0, _, data => data
  | count + 1, mask, data =>
    setBits octet lowest count (mask >>> 1) (setBit data (lowest + count) (octet &&& mask ≠ 0))

/-- The loop over the octets of the buffer. There is no octet to read behind its end. -/
def readOctets : Nat -> Asn1Header -> BitVec size -> List UInt8 -> Option (BitVec size × Asn1Header × List UInt8)
  | 0, header, data, buffer => some (data, header, buffer)
  | bitsToRead + 8, header, data, buffer =>
    match buffer with
    | [] => none
    | octet :: buffer => readOctets bitsToRead header (setBits octet bitsToRead 8 0x80 data) buffer
  | bitsToRead, header, data, buffer =>
    match buffer with
    | [] => none
    | octet :: buffer =>
      some (setBits octet 0 bitsToRead 0x80 data, { header with
          numSerializationPendingBits := 8 - bitsToRead
          serializationPendingBits := octet <<< UInt8.ofNat bitsToRead }, buffer)

/-- `DeserializeBitset`. -/
def deserializeBitset (header : Asn1Header) (data : BitVec size) (buffer : List UInt8) :
    Option (BitVec size × Asn1Header × List UInt8) :=
  let (bitsToRead, header, data) := takePending size header data
  readOctets bitsToRead header data buffer

/-- What the pairs of methods are called with, apart from the value. -/
inductive Field where
  | bitstring (size : Nat)
  | boolean
  | sequence (size : Nat) (isExtensionMarkerPresent : Bool)
  | sequenceOf (nMax nMin : Int)
  | enum (numElems : Int)
  | choice (numOptions : Int) (isExtensionMarkerPresent : Bool)
  | integer (nmin nmax : Int)
  deriving DecidableEq

/-- What a field holds. -/
abbrev Field.Value : Field -> Type
  | .bitstring size => BitVec size
  | .boolean => Bool
  | .sequence size _ => BitVec size
  | .sequenceOf _ _ | .enum _ | .choice _ _ | .integer _ _ => Int

/-- An item, or the variable that one is read into. -/
abbrev Item := (field : Field) × field.Value

/-- A boolean is a bit string of one bit. -/
def serializeBoolean (header : Asn1Header) (value : Bool) : Asn1Header :=
  header.serializeBitset (BitVec.ofBool value)

/-- `std::ceil(std::log(range) / std::log(2.0))`. -/
def requiredBits (range : Int) : Nat :=
  Nat.clog 2 range.toNat

/-- `SerializeInteger`. It fails outside the range, and if more than 28 bits are required. -/
def serializeInteger (header : Asn1Header) (n nmin nmax : Int) : Option Asn1Header :=
  if nmin ≤ n ∧ n ≤ nmax then
    let range := nmax - nmin + 1
    if range ≤ 1 then some header
    else if requiredBits range ≤ 28 then some (header.serializeBitset (BitVec.ofInt (requiredBits range) (n - nmin)))
    else none
  else none

/-- The extension marker, which says that there is no extension. -/
def serializeMarker (header : Asn1Header) (isExtensionMarkerPresent : Bool) : Asn1Header :=
  if isExtensionMarkerPresent then header.serializeBoolean false else header

/-- The preamble of a sequence: a marker, and which optional fields there are. -/
def serializeSequence (header : Asn1Header) (optionalOrDefaultMask : BitVec size) (isExtensionMarkerPresent : Bool) :
    Asn1Header :=
  (header.serializeMarker isExtensionMarkerPresent).serializeBitset optionalOrDefaultMask

/-- The number of elements, which follow one by one. -/
def serializeSequenceOf (header : Asn1Header) (numElems nMax nMin : Int) : Option Asn1Header :=
  header.serializeInteger numElems nMin nMax

/-- The index of the element, from 0. -/
def serializeEnum (header : Asn1Header) (numElems selectedElem : Int) : Option Asn1Header :=
  header.serializeInteger selectedElem 0 (numElems - 1)

/-- Of a single option nothing is written but the marker. -/
def serializeChoice (header : Asn1Header) (numOptions selectedOption : Int) (isExtensionMarkerPresent : Bool) :
    Option Asn1Header :=
  let header := header.serializeMarker isExtensionMarkerPresent
  if numOptions < 2 then some header else header.serializeInteger selectedOption 0 (numOptions - 1)

/-- The method for an item. -/
def serializeItem (header : Asn1Header) : Item -> Option Asn1Header
  | ⟨.bitstring _, data⟩ => some (header.serializeBitset data)
  | ⟨.boolean, value⟩ => some (header.serializeBoolean value)
  | ⟨.sequence _ isExtensionMarkerPresent, optionalOrDefaultMask⟩ =>
    some (header.serializeSequence optionalOrDefaultMask isExtensionMarkerPresent)
  | ⟨.sequenceOf nMax nMin, numElems⟩ => header.serializeSequenceOf numElems nMax nMin
  | ⟨.enum numElems, selectedElem⟩ => header.serializeEnum numElems selectedElem
  | ⟨.choice numOptions isExtensionMarkerPresent, selectedOption⟩ =>
    header.serializeChoice numOptions selectedOption isExtensionMarkerPresent
  | ⟨.integer nmin nmax, n⟩ => header.serializeInteger n nmin nmax

/-- The bits that are pending are padded to an octet. -/
def finalizeSerialization (header : Asn1Header) : Asn1Header :=
  let header :=
    if 0 < header.numSerializationPendingBits then
      { header with numSerializationPendingBits := 0 }.serializeBitset header.serializationPendingBits.toBitVec
    else header
  { header with isDataSerialized := true }

/-- The bit that `SerializeBoolean` writes. -/
def deserializeBoolean (header : Asn1Header) (buffer : List UInt8) : Option (Bool × Asn1Header × List UInt8) :=
  (header.deserializeBitset 0#1 buffer).map fun result => (result.1.getLsbD 0, result.2)

/-- `DeserializeInteger` into a variable, which keeps what it holds if there is one value only. -/
def deserializeInteger (header : Asn1Header) (n nmin nmax : Int) (buffer : List UInt8) :
    Option (Int × Asn1Header × List UInt8) :=
  let lowest := if nmax < nmin then nmax else nmin
  let highest := if nmax < nmin then nmin else nmax
  let range := highest - lowest + 1
  if range = 1 then some (n, header, buffer)
  else if 1 ≤ requiredBits range ∧ requiredBits range ≤ 28 then
    (header.deserializeBitset (0#(requiredBits range)) buffer).map fun result =>
      ((result.1.toNat : Int) + lowest, result.2)
  else none

/-- The marker is read, and no one looks at it. -/
def deserializeMarker (header : Asn1Header) (isExtensionMarkerPresent : Bool) (buffer : List UInt8) :
    Option (Asn1Header × List UInt8) :=
  if isExtensionMarkerPresent then (header.deserializeBoolean buffer).map Prod.snd else some (header, buffer)

/-- The preamble, with the mask that was read. -/
def deserializeSequence (header : Asn1Header) (optionalOrDefaultMask : BitVec size) (isExtensionMarkerPresent : Bool)
    (buffer : List UInt8) : Option (BitVec size × Asn1Header × List UInt8) :=
  (header.deserializeMarker isExtensionMarkerPresent buffer).bind fun marked =>
    marked.1.deserializeBitset optionalOrDefaultMask marked.2

/-- The number of elements, where the caller passes a variable for it. -/
def deserializeSequenceOf (header : Asn1Header) (numElems nMax nMin : Int) (buffer : List UInt8) :
    Option (Int × Asn1Header × List UInt8) :=
  header.deserializeInteger numElems nMin nMax buffer

/-- The index that `SerializeEnum` writes. -/
def deserializeEnum (header : Asn1Header) (numElems selectedElem : Int) (buffer : List UInt8) :
    Option (Int × Asn1Header × List UInt8) :=
  header.deserializeInteger selectedElem 0 (numElems - 1) buffer

/-- The option; a single one is an integer with a single value. -/
def deserializeChoice (header : Asn1Header) (numOptions : Int) (isExtensionMarkerPresent : Bool) (selectedOption : Int)
    (buffer : List UInt8) : Option (Int × Asn1Header × List UInt8) :=
  (header.deserializeMarker isExtensionMarkerPresent buffer).bind fun marked =>
    marked.1.deserializeInteger selectedOption 0 (numOptions - 1) marked.2

/-- The method that reads an item into a variable. -/
def deserializeItem (header : Asn1Header) (buffer : List UInt8) : (target : Item) ->
    Option (target.1.Value × Asn1Header × List UInt8)
  | ⟨.bitstring _, data⟩ => header.deserializeBitset data buffer
  | ⟨.boolean, _⟩ => header.deserializeBoolean buffer
  | ⟨.sequence _ isExtensionMarkerPresent, optionalOrDefaultMask⟩ =>
    header.deserializeSequence optionalOrDefaultMask isExtensionMarkerPresent buffer
  | ⟨.sequenceOf nMax nMin, numElems⟩ => header.deserializeSequenceOf numElems nMax nMin buffer
  | ⟨.enum numElems, selectedElem⟩ => header.deserializeEnum numElems selectedElem buffer
  | ⟨.choice numOptions isExtensionMarkerPresent, selectedOption⟩ =>
    header.deserializeChoice numOptions isExtensionMarkerPresent selectedOption buffer
  | ⟨.integer nmin nmax, n⟩ => header.deserializeInteger n nmin nmax buffer

/-- The calls of a `PreSerialize`, one after the other. -/
def serializeItems (header : Asn1Header) : List Item -> Option Asn1Header
  | [] => some header
  | item :: items => (header.serializeItem item).bind fun header => header.serializeItems items

/-- The calls of a `Deserialize`, with the values that the header object holds. -/
def deserializeItems (header : Asn1Header) (buffer : List UInt8) :
    List Item -> Option (List Item × Asn1Header × List UInt8)
  | [] => some ([], header, buffer)
  | target :: targets =>
    (header.deserializeItem buffer target).bind fun result =>
      (result.2.1.deserializeItems result.2.2 targets).map fun rest =>
        (⟨target.1, result.1⟩ :: rest.1, rest.2)

/-- What the headers of the messages do in `PreSerialize`. -/
def preSerialize (header : Asn1Header) (items : List Item) : Option Asn1Header :=
  ({ header with serializationResult := [] }.serializeItems items).map finalizeSerialization

/-- A message is set, and its items are serialized if they are not yet. -/
def getSerialized (header : Asn1Header) (items : List Item) : Option Asn1Header :=
  if header.isDataSerialized then some header else header.preSerialize items

/-- `GetSerializedSize` pre-serializes a header that has not been, and counts the octets. -/
def getSerializedSize (header : Asn1Header) (items : List Item) : Option (Nat × Asn1Header) :=
  (header.getSerialized items).map fun header => (header.serializationResult.length, header)

/-- `Serialize` writes these octets. -/
def serialize (header : Asn1Header) (items : List Item) : Option (List UInt8 × Asn1Header) :=
  (header.getSerialized items).map fun header => (header.serializationResult, header)

/-- `SetMessage`. -/
def setMessage (header : Asn1Header) : Asn1Header :=
  { header with isDataSerialized := false }

/-- The uses of a header object. -/
inductive Action where
  | write (items : List Item)
  | read (targets : List Item) (buffer : List UInt8)

/-- `Deserialize` of a concrete header ends with `GetSerializedSize`, so it is a `.read` and a
`.write` of what was read. -/
def step (header : Asn1Header) : Action -> Option Asn1Header
  | .write items => (header.setMessage.serialize items).map Prod.snd
  | .read targets buffer => (header.deserializeItems buffer targets).map fun result => result.2.1

/-- Any reads and writes of one header object. -/
def system : System Asn1Header Action where
  Initial header := header = {}
  step := step

end Asn1Header
end Ns3.Nr
