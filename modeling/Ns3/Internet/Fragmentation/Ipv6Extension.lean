import Ns3.Internet.Fragmentation.Fragments
import Mathlib.Data.UInt

/-!
# Fragmentation of IPv6 packets

`Ipv6ExtensionFragment::GetFragments` takes the headers off a packet that every fragment is to
carry, cuts what is left, and puts the headers back in front of each part. The receiver takes the
fragment header off again and gathers the parts, with the headers in front of the first one.
-/

namespace Ns3.Internet.Ipv6Extension

/-- `IPV6_EXT_HOP_BY_HOP`. -/
def extHopByHop : UInt8 := 0

def extRouting : UInt8 := 43

def extFragmentation : UInt8 := 44

def extDestination : UInt8 := 60

/-- The extension headers that fragments may carry. A routing header is a loose routing one, the
only kind there is. -/
inductive HeaderKind where
  | hopByHop
  | routing
  | destination
  deriving DecidableEq

def HeaderKind.number : HeaderKind -> UInt8
  | .hopByHop => extHopByHop
  | .routing => extRouting
  | .destination => extDestination

/-- A header, with what is serialized behind the next header field. -/
structure ExtensionHeader where
  kind : HeaderKind
  nextHeader : UInt8
  rest : List UInt8
  deriving DecidableEq

def ExtensionHeader.serialize (header : ExtensionHeader) : List UInt8 :=
  header.nextHeader :: header.rest

/-- A header taken off a packet. -/
structure Removed where
  header : ExtensionHeader
  /-- `GetLength`, kept in a `uint8_t`. -/
  extensionHeaderLength : Nat
  p : List UInt8

/-- Options are kept as they are, up to the length. -/
def removeOptions (kind : HeaderKind) (p : List UInt8) : Option Removed :=
  match p with
  | nextHeader :: length :: body =>
    let size := 8 * (length.toNat + 1)
    if p.length < size then none
    else some
      { header := ⟨kind, nextHeader, UInt8.ofNat (size / 8 - 1) :: body.take (size - 2)⟩
        extensionHeaderLength := size % 2 ^ 8
        p := p.drop size }
  | _ => none

/-- Of a routing header, the routers' addresses are kept. -/
def removeRouting (p : List UInt8) : Option Removed :=
  match p with
  | nextHeader :: length :: typeRouting :: segmentsLeft :: body =>
    let addressNum := length.toNat / 2
    let size := 8 + addressNum * 16
    if p.length < size ∨ typeRouting ≠ 0 then none
    else some
      { header := ⟨.routing, nextHeader,
          UInt8.ofNat (addressNum * 2) :: typeRouting :: segmentsLeft :: 0 :: 0 :: 0 :: 0 ::
            (body.drop 4).take (addressNum * 16)⟩
        extensionHeaderLength := 8 * (length.toNat + 1) % 2 ^ 8
        p := p.drop size }
  | _ => none

/-- `RemoveHeader`, by the kind of header that comes next. -/
def removeHeader (nextHeader : UInt8) (p : List UInt8) : Option Removed :=
  if nextHeader = extHopByHop then removeOptions .hopByHop p
  else if nextHeader = extRouting then removeRouting p
  else if nextHeader = extDestination then removeOptions .destination p
  else none

/-- Whether the next header is one that each fragment carries: a destination header is one if a
routing header follows. -/
def moreHeader (nextHeader : UInt8) (p : List UInt8) : Bool :=
  nextHeader = extHopByHop || nextHeader = extRouting || (nextHeader = extDestination && p.head? = some extRouting)

/-- The headers that each fragment carries, and what is left of the packet. -/
structure Peeled where
  unfragmentablePart : List ExtensionHeader
  unfragmentablePartSize : Nat
  nextHeader : UInt8
  p : List UInt8

/-- Take headers off, for some rounds at most. The last one announces the fragment header. -/
def peelFrom : Nat -> UInt8 -> List UInt8 -> Option Peeled
  | 0, _, _ => none
  | rounds + 1, nextHeader, p =>
    (removeHeader nextHeader p).bind fun removed =>
      if moreHeader removed.header.nextHeader removed.p then
        (peelFrom rounds removed.header.nextHeader removed.p).map fun peeled =>
          { peeled with
            unfragmentablePart := removed.header :: peeled.unfragmentablePart
            unfragmentablePartSize := removed.extensionHeaderLength + peeled.unfragmentablePartSize }
      else some
        { unfragmentablePart := [{ removed.header with nextHeader := extFragmentation }]
          unfragmentablePartSize := removed.extensionHeaderLength
          nextHeader := removed.header.nextHeader
          p := removed.p }

/-- Each header takes some bytes. -/
def peel (nextHeader : UInt8) (packet : List UInt8) : Option Peeled :=
  if moreHeader nextHeader packet then peelFrom (packet.length + 1) nextHeader packet
  else some { unfragmentablePart := [], unfragmentablePartSize := 0, nextHeader := nextHeader, p := packet }

structure FragmentHeader where
  nextHeader : UInt8
  /-- The offset, with the flag in its last bit. -/
  offset : UInt16
  identification : UInt32
  deriving DecidableEq

namespace FragmentHeader

/-- `GetSerializedSize`. -/
def serializedSize : Nat := 8

def make (nextHeader : UInt8) (offset : Nat) (moreFragment : Bool) (identification : UInt32) : FragmentHeader where
  nextHeader := nextHeader
  offset := UInt16.ofNat (offset / 8 * 8 + if moreFragment then 1 else 0)
  identification := identification

variable (header : FragmentHeader)

def getOffset : Nat :=
  header.offset.toNat / 2 * 2

def getMoreFragment : Bool :=
  header.offset.toNat % 2 = 1

def serialize : List UInt8 :=
  [header.nextHeader, 0, UInt8.ofNat (header.offset.toNat / 2 ^ 8), UInt8.ofNat header.offset.toNat,
    UInt8.ofNat (header.identification.toNat / 2 ^ 24), UInt8.ofNat (header.identification.toNat / 2 ^ 16),
    UInt8.ofNat (header.identification.toNat / 2 ^ 8), UInt8.ofNat header.identification.toNat]

/-- The header, and what is behind it. -/
def deserialize (p : List UInt8) : Option (FragmentHeader × List UInt8) :=
  match p with
  | nextHeader :: _ :: o1 :: o0 :: i3 :: i2 :: i1 :: i0 :: rest =>
    some (⟨nextHeader, UInt16.ofNat (o1.toNat * 2 ^ 8 + o0.toNat),
      UInt32.ofNat (i3.toNat * 2 ^ 24 + i2.toNat * 2 ^ 16 + i1.toNat * 2 ^ 8 + i0.toNat)⟩, rest)
  | _ => none

end FragmentHeader

/-- A fragment, with the next header field and the payload length of its IPv6 header. -/
structure Ipv6Fragment where
  packet : List UInt8
  nextHeader : UInt8
  payloadLength : Nat
  deriving DecidableEq

def ipv6HeaderSize : Nat := 40

/-- `AddHeader` of each header in turn. -/
def addHeaders (headers : List ExtensionHeader) (fragment : List UInt8) : List UInt8 :=
  headers.foldl (fun fragment header => header.serialize ++ fragment) fragment

/-- One fragment: a part of the packet behind a fragment header and the other headers. A part that
is not inside the packet fails an assertion. -/
def fragmentAt (peeled : Peeled) (firstHeader : UInt8) (identification : UInt32) (offset size : Nat)
    (moreFragment : Bool) : Option Ipv6Fragment :=
  if offset + size ≤ peeled.p.length then
    let header := FragmentHeader.make peeled.nextHeader offset moreFragment identification
    let fragment := addHeaders peeled.unfragmentablePart (header.serialize ++ (peeled.p.drop offset).take size)
    some { packet := fragment, nextHeader := firstHeader, payloadLength := fragment.length % 2 ^ 16 }
  else none

/-- The loop, for some rounds at most. -/
def fragmentLoop (peeled : Peeled) (firstHeader : UInt8) (identification : UInt32)
    (maxFragmentablePartSize : Nat) : Nat -> Nat -> Option (List Ipv6Fragment)
  | 0, _ => none
  | rounds + 1, offset =>
    if peeled.p.length > (offset + maxFragmentablePartSize) % 2 ^ 32 then
      let size := maxFragmentablePartSize - maxFragmentablePartSize % 8
      (fragmentAt peeled firstHeader identification offset size true).bind fun fragment =>
        (fragmentLoop peeled firstHeader identification maxFragmentablePartSize rounds
          ((offset + size) % 2 ^ 16)).map (fragment :: ·)
    else
      (fragmentAt peeled firstHeader identification offset (peeled.p.length - offset) false).map ([·])

/-- What is left for a part of the packet, as an unsigned number. -/
def maxFragmentablePartSize (maxFragmentSize unfragmentablePartSize : Nat) : Nat :=
  (maxFragmentSize + 2 ^ 32 - (ipv6HeaderSize + unfragmentablePartSize + FragmentHeader.serializedSize) % 2 ^ 32) %
    2 ^ 32

/-- Each round but the last one takes some bytes. -/
def getFragments (packet : List UInt8) (nextHeader : UInt8) (maxFragmentSize : Nat) (identification : UInt32) :
    Option (List Ipv6Fragment) :=
  (peel nextHeader packet).bind fun peeled =>
    fragmentLoop peeled (if moreHeader nextHeader packet then nextHeader else extFragmentation) identification
      (maxFragmentablePartSize maxFragmentSize peeled.unfragmentablePartSize) (packet.length + 1) 0

/-- The parts received, and the headers in front of the first one. -/
structure Gathered where
  packetFragments : Fragments UInt8
  unfragmentable : Option (List UInt8)
  deriving DecidableEq

def Gathered.new : Gathered where
  packetFragments := .new
  unfragmentable := none

/-- The walk of `IsEntire` from an offset on. -/
def contiguousFrom (lastEndOffset : Nat) : List (List UInt8 × Nat) -> Bool
  | [] => true
  | it :: rest =>
    if lastEndOffset ≠ it.2 then false else contiguousFrom ((lastEndOffset + it.1.length) % 2 ^ 16) rest

def Gathered.isEntire (gathered : Gathered) : Bool :=
  !gathered.packetFragments.moreFragment && !gathered.packetFragments.fragments.isEmpty &&
    contiguousFrom 0 gathered.packetFragments.fragments

/-- Without headers in front, there is no packet to copy. -/
def Gathered.getPacket (gathered : Gathered) : Option (List UInt8) :=
  gathered.unfragmentable.map fun front => front ++ gathered.packetFragments.fragments.flatMap Prod.fst

/-- A fragment at offset 0 brings the headers. -/
def Gathered.add (gathered : Gathered) (front : List UInt8) (fragment : Fragment UInt8) : Gathered where
  packetFragments := gathered.packetFragments.addFragment fragment
  unfragmentable := if fragment.offset = 0 then some front else gathered.unfragmentable

/-- Source and identification. -/
abbrev FragmentKey :=
  BitVec 128 × UInt32

/-- What processing a fragment leaves, and the next header that it reports. There is a packet once all
of it is there; otherwise processing is to stop. -/
structure Processed where
  fragments : FragmentKey -> Option Gathered
  nextHeader : UInt8
  packet : Option (List UInt8)

/-- `Process`, for a fragment whose fragment header starts at an offset. -/
def process (fragments : FragmentKey -> Option Gathered) (source : BitVec 128) (offset : UInt8) (packet : List UInt8) :
    Option Processed :=
  (FragmentHeader.deserialize (packet.drop offset.toNat)).bind fun read =>
    let key := (source, read.1.identification)
    let gathered := ((fragments key).getD .new).add (packet.take offset.toNat)
      ⟨read.2, read.1.getOffset, read.1.getMoreFragment⟩
    if gathered.isEntire then
      gathered.getPacket.map fun packet => ⟨Function.update fragments key none, read.1.nextHeader, some packet⟩
    else some ⟨Function.update fragments key (some gathered), read.1.nextHeader, none⟩

end Ns3.Internet.Ipv6Extension
