import Ns3.Network.SequenceNumber
import Ns3.Semantics.Spans

/-!
# The TCP receive buffer

`TcpRxBuffer` keeps the packets received, by sequence number, until they are extracted in
order. A packet is the list of its bytes. `none` is a failed assertion, or a map read past its
end.
-/

namespace Ns3.Internet

open Ns3.Network (SequenceNumber32)
open Ns3.Semantics

variable {Byte : Type}

/-- `Packet::GetSize`. -/
def getSize (packet : List Byte) : UInt32 :=
  UInt32.ofNat packet.length

/-- `Packet::CreateFragment`. -/
def createFragment (packet : List Byte) (start length : UInt32) : Option (List Byte) :=
  if start + length ≤ getSize packet then some ((packet.drop start.toNat).take length.toNat) else none

/-- `TcpOptionSack::SackBlock`. -/
structure SackBlock where
  first : SequenceNumber32
  second : SequenceNumber32
  deriving DecidableEq

/-- A packet in `m_data`, with its key. -/
abbrev Entry (Byte : Type) := SequenceNumber32 × List Byte

@[ext]
structure TcpRxBuffer (Byte : Type) where
  nextRxSeq : SequenceNumber32
  finSeq : SequenceNumber32
  gotFin : Bool
  size : UInt32
  maxBuffer : UInt32
  availBytes : UInt32
  /-- `m_data`, in the order of its keys. -/
  data : List (Entry Byte)
  sackList : List SackBlock
  deriving DecidableEq

namespace TcpRxBuffer

/-- The constructor, followed by `SetMaxBufferSize`. -/
def construct (n maxBuffer : UInt32) : TcpRxBuffer Byte where
  nextRxSeq := ⟨n⟩
  finSeq := ⟨0⟩
  gotFin := false
  size := 0
  maxBuffer := maxBuffer
  availBytes := 0
  data := []
  sackList := []

variable (buffer : TcpRxBuffer Byte)

def maxRxSequence : SequenceNumber32 :=
  if buffer.gotFin then buffer.finSeq
  else
    match buffer.data with
    | [] => buffer.nextRxSeq + buffer.maxBuffer
    | first :: _ =>
      if buffer.nextRxSeq > first.1 then first.1 + buffer.maxBuffer
      else buffer.nextRxSeq + buffer.maxBuffer

def setFinSequence (s : SequenceNumber32) : TcpRxBuffer Byte :=
  { buffer with
    gotFin := true
    finSeq := s
    nextRxSeq := if buffer.nextRxSeq = s then buffer.nextRxSeq + (1 : UInt32) else buffer.nextRxSeq }

def finished : Bool :=
  buffer.gotFin && decide (buffer.finSeq < buffer.nextRxSeq)

/-- The loop that joins the block `begin` of the front with the ones it touches: `passed` are
the blocks behind it that the iterator has passed. -/
def mergeBlocks (begin : SackBlock) (passed : List SackBlock) : List SackBlock -> Option (List SackBlock)
  | [] => some (begin :: passed)
  | current :: rest =>
    if begin.first = current.second then
      if current.first < begin.second then
        mergeBlocks ⟨current.first, begin.second⟩ [] (passed ++ rest)
      else none
    else if begin.second = current.first then
      if begin.first < current.second then
        mergeBlocks ⟨begin.first, current.second⟩ [] (passed ++ rest)
      else none
    else mergeBlocks begin (passed ++ [current]) rest
  termination_by ahead => (passed.length + ahead.length) ^ 2 + ahead.length
  decreasing_by
    all_goals simp only [List.length_nil, List.length_append, List.length_cons, Nat.zero_add]
    · exact Spans.merge_decreases ..
    · exact Spans.merge_decreases ..
    · rw [show passed.length + 1 + rest.length = passed.length + (rest.length + 1) by omega]
      omega

def updateSackList (head tail : SequenceNumber32) : Option (TcpRxBuffer Byte) := do
  guard (head > buffer.nextRxSeq)
  let merged ← mergeBlocks ⟨head, tail⟩ [] buffer.sackList
  let sackList := if merged.length > 4 then merged.dropLast else merged
  return { buffer with sackList := sackList }

def clearSackList (seq : SequenceNumber32) (sackList : List SackBlock) : Option (List SackBlock) :=
  if ∀ block ∈ sackList, block.first < block.second then
    some (sackList.filter fun block => ¬ block.second ≤ seq)
  else none

/-- `m_data.find(key)`. -/
def find (key : SequenceNumber32) (data : List (Entry Byte)) : Option (Entry Byte) :=
  data.find? fun entry => ¬ entry.1 < key ∧ ¬ key < entry.1

/-- `m_data[key] = packet`. -/
def assign (key : SequenceNumber32) (packet : List Byte) : List (Entry Byte) -> List (Entry Byte)
  | [] => [(key, packet)]
  | entry :: rest =>
    if entry.1 < key then entry :: assign key packet rest
    else if key < entry.1 then (key, packet) :: entry :: rest
    else (entry.1, packet) :: rest

/-- `m_data.erase` of the entry at a key. -/
def erase (key : SequenceNumber32) (data : List (Entry Byte)) : List (Entry Byte) :=
  data.eraseP fun entry => entry.1 = key

/-- The local variables of `Add` while it walks through the packets stored. -/
structure Overlap (Byte : Type) where
  headSeq : SequenceNumber32
  tailSeq : SequenceNumber32
  size : UInt32
  data : List (Entry Byte)

def Overlap.keep (entry : Entry Byte) (overlap : Overlap Byte) : Overlap Byte :=
  { overlap with data := entry :: overlap.data }

/-- The loop that removes the overlapped bytes from the packet, and the embedded packets from
`m_data`. -/
def removeOverlap (headSeq tailSeq : SequenceNumber32) (size : UInt32) : List (Entry Byte) -> Overlap Byte
  | [] => ⟨headSeq, tailSeq, size, []⟩
  | entry :: rest =>
    if entry.1 ≤ tailSeq then
      let lastByteSeq := entry.1 + getSize entry.2
      if lastByteSeq > headSeq then
        if entry.1 > headSeq ∧ lastByteSeq < tailSeq then
          removeOverlap headSeq tailSeq (size - getSize entry.2) rest
        else
          (removeOverlap (if entry.1 ≤ headSeq then lastByteSeq else headSeq)
            (if lastByteSeq ≥ tailSeq then entry.1 else tailSeq) size rest).keep entry
      else (removeOverlap headSeq tailSeq size rest).keep entry
    else ⟨headSeq, tailSeq, size, entry :: rest⟩

/-- The loop that moves `m_nextRxSeq` through the packets that continue it. -/
def receiveInOrder (buffer : TcpRxBuffer Byte) : List (Entry Byte) -> Option (TcpRxBuffer Byte)
  | [] => some buffer
  | entry :: rest =>
    if entry.1 < buffer.nextRxSeq then receiveInOrder buffer rest
    else if entry.1 > buffer.nextRxSeq then some buffer
    else do
      let nextRxSeq := entry.1 + getSize entry.2
      let sackList ← clearSackList nextRxSeq buffer.sackList
      receiveInOrder { buffer with
        nextRxSeq := nextRxSeq
        availBytes := buffer.availBytes + getSize entry.2
        sackList := sackList } rest

variable (headSeq tailSeq : SequenceNumber32)

/-- What `Add` does first: the ends of the packet, trimmed to the window. -/
def fitWindow : SequenceNumber32 × SequenceNumber32 :=
  let headSeq := if headSeq < buffer.nextRxSeq then buffer.nextRxSeq else headSeq
  match buffer.data with
  | [] => (headSeq, tailSeq)
  | first :: _ =>
    let maxSeq := first.1 + buffer.maxBuffer
    let tailSeq := if maxSeq < tailSeq then maxSeq else tailSeq
    (if tailSeq < headSeq then tailSeq else headSeq, tailSeq)

/-- Generate a new SACK block for a fragment that is not the next one. -/
def reportSack : Option (TcpRxBuffer Byte) :=
  if headSeq > buffer.nextRxSeq then buffer.updateSackList headSeq tailSeq else some buffer

/-- Update the variables of the buffer for a fragment that has been stored. -/
def receive (fragment : List Byte) : Option (TcpRxBuffer Byte) := do
  let buffer ← receiveInOrder { buffer with size := buffer.size + getSize fragment } buffer.data
  return { buffer with
    nextRxSeq :=
      if buffer.gotFin ∧ buffer.nextRxSeq = buffer.finSeq then buffer.nextRxSeq + (1 : UInt32)
      else buffer.nextRxSeq }

/-- The end of `Add`, for a fragment to be stored. -/
def store (fragment : List Byte) :
    Option (TcpRxBuffer Byte) := do
  guard (find headSeq buffer.data).isNone
  let buffer ← { buffer with data := assign headSeq fragment buffer.data }.reportSack headSeq tailSeq
  buffer.receive fragment

/-- `Add` of a packet whose header carries the sequence number `seq`. -/
def add (packet : List Byte) (seq : SequenceNumber32) :
    Option (TcpRxBuffer Byte × Bool) := do
  let window := buffer.fitWindow seq (seq + getSize packet)
  let overlap := removeOverlap window.1 window.2 buffer.size buffer.data
  let buffer := { buffer with size := overlap.size, data := overlap.data }
  if overlap.headSeq ≥ overlap.tailSeq then return (buffer, false)
  else
    let start := (overlap.headSeq.sub seq).toUInt32
    let length := (overlap.tailSeq.sub overlap.headSeq).toUInt32
    let fragment ← createFragment packet start length
    guard (length = getSize fragment)
    let buffer ← buffer.store overlap.headSeq overlap.tailSeq fragment
    return (buffer, true)

/-- The loop of `Extract`, over `m_data`: the buffer that is left and what is put out. -/
def extractFrom (buffer : TcpRxBuffer Byte) (extractSize : UInt32) (outPkt : List Byte) :
    List (Entry Byte) -> Option (TcpRxBuffer Byte × List Byte)
  | [] => if extractSize = 0 then some ({ buffer with data := [] }, outPkt) else none
  | entry :: rest =>
    if extractSize = 0 then some ({ buffer with data := entry :: rest }, outPkt)
    else if entry.1 ≤ buffer.nextRxSeq then
      let pktSize := getSize entry.2
      if pktSize ≤ extractSize then
        extractFrom { buffer with
          size := buffer.size - pktSize
          availBytes := buffer.availBytes - pktSize } (extractSize - pktSize) (outPkt ++ entry.2) rest
      else do
        let taken ← createFragment entry.2 0 extractSize
        let left ← createFragment entry.2 extractSize (pktSize - extractSize)
        return ({ buffer with
          data := erase entry.1 (assign (entry.1 + extractSize) left (entry :: rest))
          size := buffer.size - extractSize
          availBytes := buffer.availBytes - extractSize }, outPkt ++ taken)
    else none

/-- `Extract`; the second component is the packet returned, if any. -/
def extract (maxSize : UInt32) : Option (TcpRxBuffer Byte × Option (List Byte)) :=
  let extractSize := if buffer.availBytes < maxSize then buffer.availBytes else maxSize
  if extractSize = 0 then some (buffer, none)
  else
    (extractFrom buffer extractSize [] buffer.data).map fun (left, outPkt) =>
      (left, if outPkt = [] then none else some outPkt)

end TcpRxBuffer

end Ns3.Internet
