import Ns3.Semantics.Run
import Mathlib.Data.List.AList
import Mathlib.Data.UInt

/-!
# Fragmentation of 6LoWPAN

A compressed packet is cut for the MTU of the device below, but the offsets refer to the packet as
it was before. The receiver decompresses a first fragment only to measure it, and keeps a list of
timeouts beside the fragments of each datagram.
-/

namespace Ns3.SixLowPan

open Semantics

/-- `SixLowPanFrag1` and `SixLowPanFragN`. -/
inductive FragmentHeader where
  | frag1 (datagramSize datagramTag : UInt16)
  | fragN (datagramSize datagramTag : UInt16) (datagramOffset : UInt8)
  deriving DecidableEq

namespace FragmentHeader

def serializedSize : FragmentHeader -> Nat
  | frag1 _ _ => 4
  | fragN _ _ _ => 5

def datagramSize : FragmentHeader -> UInt16
  | frag1 size _ | fragN size _ _ => size

def datagramTag : FragmentHeader -> UInt16
  | frag1 _ tag | fragN _ tag _ => tag

/-- In units of eight octets. -/
def datagramOffset : FragmentHeader -> UInt8
  | frag1 _ _ => 0
  | fragN _ _ offset => offset

def isFirst : FragmentHeader -> Bool
  | frag1 _ _ => true
  | fragN _ _ _ => false

end FragmentHeader

structure Fragment (Octet : Type) where
  header : FragmentHeader
  data : List Octet
  deriving DecidableEq

/-- `SetDatagramSize`: the field has eleven bits. -/
def setDatagramSize (datagramSize : UInt16) : UInt16 :=
  datagramSize &&& 0x7ff

/-- What `DoFragmentation` is called with, and the link-layer addresses that the packet is sent
between. -/
structure Datagram (Octet : Type) where
  src : Nat
  dst : Nat
  packet : List Octet
  origPacketSize : UInt32
  origHdrSize : UInt32
  extraHdrSize : UInt32
  l2Mtu : UInt16
  tag : UInt16

namespace Datagram

variable {Octet : Type} (datagram : Datagram Octet)

def packetSize : UInt32 :=
  UInt32.ofNat datagram.packet.length

def compressedHeaderSize : UInt32 :=
  datagram.packetSize - (datagram.origPacketSize - datagram.origHdrSize)

/-- `CreateFragment`, which fails outside the packet. -/
def createFragment (start size : Nat) : Option (List Octet) :=
  if start + size ≤ datagram.packet.length then some ((datagram.packet.drop start).take size) else none

/-- The size of a later fragment that is not the last one. -/
def laterSize : UInt32 :=
  let size := datagram.l2Mtu.toUInt32 - 5 - datagram.extraHdrSize
  size - size % 8

/-- The loop over the later fragments, with a bound on its rounds. -/
def fragmentLoop : Nat -> UInt16 -> UInt16 -> Option (List (Fragment Octet))
  | 0, _, _ => none
  | fuel + 1, offset, offsetData =>
    let isLast := offsetData.toUInt32 + datagram.laterSize > datagram.packetSize
    let size := if isLast then datagram.packetSize - offsetData.toUInt32 else datagram.laterSize
    let header := .fragN (setDatagramSize datagram.origPacketSize.toUInt16) datagram.tag (offset >>> 3).toUInt8
    if 0 < size then
      (datagram.createFragment offsetData.toNat size.toNat).bind fun data =>
        if isLast then some [⟨header, data⟩]
        else (fragmentLoop fuel (offset + size.toUInt16) (offsetData + size.toUInt16)).map (⟨header, data⟩ :: ·)
    else if isLast then some []
    else fragmentLoop fuel offset offsetData

/-- The size of the first fragment: its data are cut to a multiple of eight behind the compressed
headers. -/
def firstSize : UInt32 :=
  let size := datagram.l2Mtu.toUInt32 - 4 - datagram.compressedHeaderSize - datagram.extraHdrSize
  size - size % 8 + datagram.compressedHeaderSize

def doFragmentation (fuel : Nat) : Option (List (Fragment Octet)) :=
  if datagram.l2Mtu > 4 then
    (datagram.createFragment 0 datagram.firstSize.toNat).bind fun data =>
      (datagram.fragmentLoop fuel (datagram.firstSize + datagram.origHdrSize - datagram.compressedHeaderSize).toUInt16
          datagram.firstSize.toUInt16).map
        (⟨.frag1 (setDatagramSize datagram.origPacketSize.toUInt16) datagram.tag, data⟩ :: ·)
  else none

end Datagram

structure FragmentKey where
  src : Nat
  dst : Nat
  datagramSize : UInt16
  datagramTag : UInt16
  deriving DecidableEq

structure Fragments (Octet : Type) where
  packetSize : Nat
  /-- By their offsets, in octets. -/
  fragments : List (List Octet × Nat) := []
  /-- The data of the first fragment as it came, with the compressed headers. -/
  firstFragment : Option (List Octet) := none
  /-- The entry of the list of timeouts. -/
  timeoutIter : Nat

namespace Fragments

variable {Octet : Type}

/-- `AddFragment`, which fails on a duplicate of another size. -/
def addTo (fragment : List Octet) (offset : Nat) : List (List Octet × Nat) -> Option (List (List Octet × Nat))
  | [] => some [(fragment, offset)]
  | it :: rest =>
    if it.2 > offset then some ((fragment, offset) :: it :: rest)
    else if it.2 = offset then if fragment.length = it.1.length then some (it :: rest) else none
    else (addTo fragment offset rest).map (it :: ·)

variable (fragments : Fragments Octet)

/-- `AddFragment`, and `AddFirstFragment` for what is given as it came. -/
def add (fragment : List Octet) (offset : Nat) (first : Option (List Octet)) :
    Option (Fragments Octet) :=
  (addTo fragment offset fragments.fragments).map fun added =>
    { fragments with fragments := added, firstFragment := if first.isSome then first else fragments.firstFragment }

/-- The walk of `IsEntire` over the fragments, to the last offset unless there is a gap. -/
def lastEndOffset (last : Nat) : List (List Octet × Nat) -> Option Nat
  | [] => some last
  | it :: rest => if last < it.2 then none else lastEndOffset (max last ((it.1.length + it.2) % 2 ^ 16)) rest

def isEntire : Bool :=
  !fragments.fragments.isEmpty && lastEndOffset 0 fragments.fragments = some fragments.packetSize

/-- The later fragments behind the first one; overlapping ones abort. -/
def appendFrom (packet : List Octet) (lastEndOffset : Nat) : List (List Octet × Nat) -> Option (List Octet)
  | [] => some packet
  | it :: rest =>
    if lastEndOffset > it.2 then none
    else appendFrom (packet ++ it.1) ((lastEndOffset + it.1.length) % 2 ^ 16) rest

/-- `GetPacket`, without the fragment header that the caller removes. -/
def getPacket : Option (List Octet) :=
  fragments.firstFragment.bind fun first =>
    match fragments.fragments with
    | [] => none
    | it :: rest => appendFrom first (it.1.length % 2 ^ 16) rest

end Fragments

structure TimeoutEntry where
  /-- Which node of the list this is: iterators refer to nodes. -/
  id : Nat
  time : Nat
  key : FragmentKey
  deriving DecidableEq

structure Receiver (Octet : Type) where
  now : Nat := 0
  /-- `m_fragments`. -/
  fragments : AList (fun _ : FragmentKey => Fragments Octet) := ∅
  timeoutEventList : List TimeoutEntry := []
  nextId : Nat := 0
  /-- When `HandleTimeout` is scheduled. -/
  timeoutEvents : List Nat := []

/-- The attributes of the device, and the decompression of a first fragment from its addresses. -/
structure ReceiverConfig (Octet : Type) where
  fragmentReassemblyListSize : Nat
  fragmentExpirationTimeout : Nat
  decompress : Nat -> Nat -> List Octet -> Option (List Octet)

namespace Receiver

variable {Octet : Type} (config : ReceiverConfig Octet) (receiver : Receiver Octet)

variable (key : FragmentKey)

def eraseFragments : Receiver Octet :=
  { receiver with fragments := receiver.fragments.erase key }

/-- An iterator must refer to an entry of the list. -/
def eraseTimeout (iter : Nat) : Option (Receiver Octet) :=
  if receiver.timeoutEventList.any fun entry => entry.id = iter then
    some { receiver with timeoutEventList := receiver.timeoutEventList.filter fun entry => entry.id ≠ iter }
  else none

/-- `SetTimeout`, with the entry it appends. -/
def setTimeout : Receiver Octet × Nat :=
  ({ receiver with
      timeoutEventList := receiver.timeoutEventList ++
        [⟨receiver.nextId, receiver.now + config.fragmentExpirationTimeout, key⟩]
      nextId := receiver.nextId + 1
      timeoutEvents :=
        if receiver.timeoutEventList.isEmpty then
          receiver.timeoutEvents ++ [receiver.now + config.fragmentExpirationTimeout]
        else receiver.timeoutEvents },
    receiver.nextId)

/-- The datagram at the front of the list of timeouts is dropped. -/
def eraseOldest : Option (Receiver Octet) :=
  receiver.timeoutEventList.head?.bind fun oldest =>
    (receiver.fragments.lookup oldest.key).bind fun fragments =>
      (receiver.eraseTimeout fragments.timeoutIter).map fun receiver => receiver.eraseFragments oldest.key

/-- The receiver with an entry for a key that has none. -/
def create (packetSize : Nat) : Option (Receiver Octet) :=
  let room := if config.fragmentReassemblyListSize ≠ 0 ∧
      receiver.fragments.keys.length ≥ config.fragmentReassemblyListSize then receiver.eraseOldest else some receiver
  room.map fun receiver =>
    let timeout := receiver.setTimeout config key
    { timeout.1 with fragments := timeout.1.fragments.insert key { packetSize, timeoutIter := timeout.2 } }

def setFragments (fragments : Fragments Octet) : Receiver Octet :=
  { receiver with fragments := receiver.fragments.insert key fragments }

/-- The receiver with an entry for a key, its own or a new one. -/
def withEntry (packetSize : Nat) : Option (Receiver Octet) :=
  if (receiver.fragments.lookup key).isSome then some receiver else receiver.create config key packetSize

/-- The end of `ProcessFragment`, for a fragment that has been measured. -/
def store (fragment : List Octet) (offset : Nat) (first : Option (List Octet)) :
    Option (Receiver Octet × Option (List Octet)) :=
  (receiver.withEntry config key key.datagramSize.toNat).bind fun receiver =>
    (receiver.fragments.lookup key).bind fun fragments =>
    (fragments.add fragment offset first).bind fun fragments =>
      if fragments.isEntire then
        fragments.getPacket.bind fun packet =>
          (receiver.eraseTimeout fragments.timeoutIter).map fun receiver => (receiver.eraseFragments key, some packet)
      else some (receiver.setFragments key fragments, none)

/-- `ProcessFragment`: what the receiver becomes, and the packet that is complete. A first fragment
that cannot be decompressed is dropped. -/
def processFragment (src dst : Nat) (fragment : Fragment Octet) : Option (Receiver Octet × Option (List Octet)) :=
  let key := ⟨src, dst, fragment.header.datagramSize, fragment.header.datagramTag⟩
  if fragment.header.isFirst then
    match config.decompress src dst fragment.data with
    | none => some (receiver, none)
    | some decompressed => receiver.store config key decompressed 0 (some fragment.data)
  else receiver.store config key fragment.data (fragment.header.datagramOffset.toNat <<< 3) none

/-- The loop of `HandleTimeout`: entries whose time has come go, each with its fragments. -/
def expire (now : Nat) : Receiver Octet -> List TimeoutEntry -> Option (Receiver Octet)
  | receiver, [] => some { receiver with timeoutEventList := [] }
  | receiver, entry :: entries =>
    if entry.time = now then
      (receiver.fragments.lookup entry.key).bind fun _ => expire now (receiver.eraseFragments entry.key) entries
    else some { receiver with timeoutEventList := entry :: entries }

/-- `HandleTimeout`, which is scheduled again for the entry at the front; a time in the past fails. -/
def handleTimeout : Option (Receiver Octet) :=
  (expire receiver.now receiver receiver.timeoutEventList).bind fun expired =>
    match expired.timeoutEventList with
    | [] => some expired
    | front :: _ =>
      if expired.now ≤ front.time then some { expired with timeoutEvents := expired.timeoutEvents ++ [front.time] }
      else none

end Receiver

namespace Reassembly

/-- The receiver, and beside it the fragments that have come of each datagram that is pending. -/
structure State (Octet : Type) where
  receiver : Receiver Octet := {}
  arrived : FragmentKey -> List (Fragment Octet) := fun _ => []

inductive Action where
  /-- A fragment of a datagram arrives, by their numbers: any one at any time. -/
  | receive (datagram fragment : Nat)
  | advance (time : Nat)
  | handleTimeout

/-- What goes with a datagram that is no longer pending. -/
def pendingOnly {Octet : Type} (receiver : Receiver Octet) (arrived : FragmentKey -> List (Fragment Octet)) :
    FragmentKey -> List (Fragment Octet) :=
  fun key => if (receiver.fragments.lookup key).isSome then arrived key else []

variable {Octet : Type}

/-- Datagrams on the air, with the fragments they have been cut into. -/
abbrev Sent (Octet : Type) := List (Datagram Octet × List (Fragment Octet))

def keyOf (datagram : Datagram Octet) : FragmentKey :=
  ⟨datagram.src, datagram.dst, datagram.origPacketSize.toUInt16, datagram.tag⟩

def step (config : ReceiverConfig Octet) (sent : Sent Octet) (state : State Octet) : Action -> Option (State Octet)
  | .receive datagram fragment =>
    sent[datagram]?.bind fun entry => entry.2[fragment]?.bind fun received =>
      (state.receiver.processFragment config entry.1.src entry.1.dst received).map fun result =>
        { receiver := result.1
          arrived := pendingOnly result.1
            fun key => if key = keyOf entry.1 then received :: state.arrived key else state.arrived key }
  | .advance time =>
    if state.receiver.now ≤ time ∧ ∀ event ∈ state.receiver.timeoutEvents, time ≤ event then
      some { state with receiver := { state.receiver with now := time } }
    else none
  | .handleTimeout =>
    if state.receiver.now ∈ state.receiver.timeoutEvents then
      { state.receiver with
        timeoutEvents := state.receiver.timeoutEvents.erase state.receiver.now : Receiver Octet }.handleTimeout.map
          fun receiver => { receiver, arrived := pendingOnly receiver state.arrived }
    else none

def system (config : ReceiverConfig Octet) (sent : Sent Octet) : System (State Octet) Action where
  Initial state := state = {}
  step := step config sent

end Reassembly
end Ns3.SixLowPan
