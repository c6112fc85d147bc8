import Ns3.Network.BufferIterator

/-!
# Information elements

An element whose information field is too long for its length octet is cut into fragments, and put
together again before the subclass reads it. The extension octet is in the first fragment but is not
part of what the subclass writes.
-/

namespace Ns3.Wifi

open Network.BufferIterator List

def ieFragment : UInt8 := 242

def ieExtension : UInt8 := 255

/-- What a subclass provides. It reads from an iterator as many bytes as it is told. -/
structure WifiInformationElement (Field : Type*) where
  elementId : UInt8
  elementIdExt : UInt8 := 0
  informationFieldSize : Field -> UInt16
  serializeInformationField : Field -> List UInt8
  deserializeInformationField : List UInt8 -> UInt16 -> Option Field

/-- What `DeserializeIfPresent` does: the call of the subclass, and the iterator it returns. -/
inductive Deserialized where
  | absent (start : List UInt8)
  | present (start : List UInt8) (length : UInt16) (next : List UInt8)
  deriving DecidableEq

namespace WifiInformationElement

variable {Field : Type*} (element : WifiInformationElement Field)

/-- The Element ID Extension. -/
def extension : List UInt8 :=
  if element.elementId = ieExtension then [element.elementIdExt] else []

def getSerializedSize (field : Field) : UInt16 :=
  let size := element.informationFieldSize field
  if size ≤ 255 then UInt16.ofNat (2 + size.toNat)
  else
    let remainder := (size % 255).toNat
    let n := if 0 < remainder then 1 else 0
    UInt16.ofNat ((size / 255).toNat * (2 + 255) + n * (2 + remainder))

/-- The loop over the fragments of maximum size, from `index` on; what is left of the source. -/
def serializeFull : Nat -> Nat -> List UInt8 -> List UInt8 × List UInt8
  | 0, _, source => ([], source)
  | count + 1, index, source =>
    let extension := if index = 0 then element.extension else []
    let length := 255 - extension.length
    let (bytes, left) := serializeFull count (index + 1) (source.drop length)
    ((if index = 0 then element.elementId else ieFragment) :: 255 :: extension ++ source.take length ++ bytes, left)

def serializeFragments (field : Field) (size : UInt16) : List UInt8 :=
  let written := element.serializeInformationField field
  let (bytes, source) := element.serializeFull (size / 255).toNat 0
    (written ++ replicate (size.toNat - written.length) 0)
  let remainder := (size % 255).toNat
  if 0 < remainder then bytes ++ ieFragment :: UInt8.ofNat remainder :: source.take remainder else bytes

def serialize (field : Field) : List UInt8 :=
  let size := element.informationFieldSize field
  if 255 < size then element.serializeFragments field size
  else element.elementId :: size.toUInt8 :: element.extension ++ element.serializeInformationField field

/-- The loop that copies fragments: `length` bytes of `buffer` have been written, and `count` are to
be copied next. -/
def copyFragments (buffer : List UInt8) (length : UInt16) (count : Nat) (bytes : List UInt8) :
    Option (List UInt8 × UInt16 × List UInt8) :=
  if count ≤ bytes.length then
    let written := buffer.take length.toNat ++ bytes.take count ++ buffer.drop (length.toNat + count)
    let copied := length + UInt16.ofNat count
    match isNext : bytes.drop count with
    | [] => some (written, copied, [])
    | id :: rest =>
      if id ≠ ieFragment then some (written, copied, id :: rest)
      else
        match rest with
        | [] => none
        | size :: rest => copyFragments (written ++ replicate size.toNat 0) copied size.toNat rest
  else none
termination_by bytes.length
decreasing_by
  have shorter := congrArg List.length isNext
  rw [length_drop] at shorter
  simp only [length_cons] at shorter
  omega

/-- `DoDeserialize`; it fails where it would read past the end. -/
def doDeserialize (start : List UInt8) (length : UInt16) : Option Deserialized :=
  let limit : UInt16 := if element.elementId = ieExtension then 254 else 255
  (next length.toNat start).bind fun past =>
    if length < limit ∨ past.head? ≠ some ieFragment then some (.present start length past)
    else if length = limit then
      (copyFragments (replicate length.toNat 0) 0 length.toNat start).map fun (buffer, length, rest) =>
        .present buffer length rest
    else none

def deserializeIfPresent (start : List UInt8) : Option Deserialized :=
  match start with
  | [] => some (.absent [])
  | elementId :: rest =>
    if elementId ≠ element.elementId then some (.absent start)
    else
      (readU8 rest).bind fun (length, rest) =>
        if element.elementId = ieExtension then
          (readU8 rest).bind fun (elementIdExt, rest) =>
            if elementIdExt ≠ element.elementIdExt then some (.absent start)
            else element.doDeserialize rest (length.toUInt16 - 1)
        else element.doDeserialize rest length.toUInt16

end WifiInformationElement

end Ns3.Wifi
