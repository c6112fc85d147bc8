import Ns3.Semantics.SharedList.Operations

/-!
# Packet tag lists

The nodes of all packet tag lists, with the operations of `PacketTagList` on them. Lists that
were copied share nodes, and `cowTraverse` copies those in front of a tag that is removed or
replaced. An assertion that fails, or a pointer that leads to no node, ends in `none`.
-/

namespace Ns3.Network

open Ns3.Semantics.SharedList

/-- What the lists rely on from the classes of tags: reading takes from the front of the buffer
what writing put there. -/
structure TagCodec (Tid Value : Type) where
  /-- `GetInstanceTypeId`. -/
  tid : Value -> Tid
  /-- The `GetSerializedSize` bytes that `Serialize` writes. -/
  serialize : Value -> List UInt8
  deserialize : Tid -> List UInt8 -> Value
  deserialize_serialize : ∀ value rest, deserialize (tid value) (serialize value ++ rest) = value

/-- The tag in a node. Its `size` is the length of the data. -/
structure TagData (Tid : Type) where
  tid : Tid
  data : List UInt8
  deriving DecidableEq

abbrev TagHeap (Tid : Type) :=
  Heap (TagData Tid)

/-- Write bytes at the start of a buffer, which `TagBuffer` asserts to fit. -/
def TagBuffer.write (bytes buffer : List UInt8) : Option (List UInt8) :=
  if bytes.length ≤ buffer.length then some (bytes ++ buffer.drop bytes.length) else none

namespace PacketTagList

variable {Tid Value Out : Type} [DecidableEq Tid] (codec : TagCodec Tid Value)

/-- The data of a new node, of a size that is asserted to be less than the greatest one. -/
def createTagData (dataSize : Nat) : Option (List UInt8) :=
  if dataSize < 2 ^ 32 - 1 then some (List.replicate dataSize 0) else none

/-- A new node's data, once a tag has been serialized into it. -/
def serialized (tag : Value) : Option (List UInt8) :=
  (createTagData (codec.serialize tag).length).bind fun data => TagBuffer.write (codec.serialize tag) data

/-- The first node with a type of tag. -/
def find (heap : TagHeap Tid) (tid : Tid) : Nat -> Option Nat -> Option (Option Nat)
  | _, none => some none
  | 0, some _ => none
  | fuel + 1, some cur =>
    (heap.node cur).bind fun node =>
      if node.load.tid = tid then some (some cur) else find heap tid fuel node.next

/-- From the head of the list up to a merge or the tag looked for: the link there, and the node. -/
def search (heap : TagHeap Tid) (tid : Tid) : Nat -> Link -> Option Nat -> Option (Link × Option Nat)
  | _, prevNext, none => some (prevNext, none)
  | 0, _, some _ => none
  | fuel + 1, prevNext, some cur =>
    (heap.node cur).bind fun node =>
      if node.count > 1 then some (prevNext, some cur)
      else if node.load.tid = tid then some (prevNext, some cur)
      else search heap tid fuel (.next cur) node.next

/-- Copy the nodes in front of the tag looked for, moving the merge point along. -/
def copyUntil (tid : Tid) : Nat -> TagHeap Tid -> Link -> Nat -> Option (TagHeap Tid × Link × Nat)
  | 0, _, _, _ => none
  | fuel + 1, heap, prevNext, cur =>
    (heap.node cur).bind fun node =>
      if node.load.tid = tid then some (heap, prevNext, cur)
      else if node.count > 1 then
        (createTagData node.load.data.length).bind fun _ =>
          node.next.bind fun next =>
            let copy := heap.nodes.length
            copyUntil tid fuel
              ((((heap.disown cur).alloc ⟨some next, 1, node.load⟩).adopt (some next)).point prevNext (some copy))
              (.next copy) next
      else none

/-- What is done with the node found: whether it was found before the first merge, the node, and
the link to it. -/
abbrev COWWriter (Tid Out : Type) :=
  Bool -> Nat -> Link -> TagHeap Tid -> Option (TagHeap Tid × Out)

variable (heap : TagHeap Tid)

/-- From a merge on: if the tag is there at all, copy up to it, and link past it. -/
def cowMerge (tid : Tid) (writer : COWWriter Tid Out) (prevNext : Link) (cur : Nat) :
    Option (TagHeap Tid × Option Out) :=
  (find heap tid heap.nodes.length (some cur)).bind fun it =>
    if it = none then some (heap, none)
    else
      (copyUntil tid heap.nodes.length heap prevNext cur).bind fun merge =>
        (merge.1.node merge.2.2).bind fun node =>
          if node.load.tid = tid ∧ node.count > 1 then
            (writer false merge.2.2 merge.2.1 merge.1).map fun result => (result.1, some result.2)
          else none

variable (owner : Nat)

/-- What the writer returns, if the tag is found. -/
def cowTraverse (tid : Tid) (writer : COWWriter Tid Out) : Option (TagHeap Tid × Option Out) :=
  (search heap tid heap.nodes.length (.head owner) (heap.follow (.head owner))).bind fun stop =>
    match stop.2 with
    | none => some (heap, none)
    | some cur =>
      (heap.node cur).bind fun node =>
        if node.count > 1 then cowMerge heap tid writer stop.1 cur
        else (writer true cur stop.1 heap).map fun result => (result.1, some result.2)

/-- Returns the value of the tag removed. -/
def removeWriter (tid : Tid) : COWWriter Tid Value := fun preMerge cur prevNext heap =>
  (heap.node cur).map fun node =>
    let value := codec.deserialize tid node.load.data
    let heap := heap.point prevNext node.next
    if preMerge then (heap.free cur, value)
    else ((heap.disown cur).adopt node.next, value)

def replaceWriter (tag : Value) : COWWriter Tid Unit := fun preMerge cur prevNext heap =>
  (heap.node cur).bind fun node =>
    if preMerge then
      (TagBuffer.write (codec.serialize tag) node.load.data).map fun data =>
        (heap.reload cur { node.load with data := data }, ())
    else
      (serialized codec tag).map fun data =>
        let copy := heap.nodes.length
        ((((heap.disown cur).alloc ⟨node.next, 1, ⟨codec.tid tag, data⟩⟩).adopt node.next).point prevNext
          (some copy), ())

def remove (tid : Tid) : Option (TagHeap Tid × Option Value) :=
  cowTraverse heap owner tid (removeWriter codec tid)

/-- The type of a tag added is asserted not to be in the list. -/
def add (tag : Value) : Option (TagHeap Tid) :=
  (find heap (codec.tid tag) heap.nodes.length (heap.follow (.head owner))).bind fun present =>
    if present = none then
      (serialized codec tag).map fun data => heap.prepend owner ⟨codec.tid tag, data⟩
    else none

/-- Returns whether the tag was found. -/
def replace (tag : Value) : Option (TagHeap Tid × Bool) :=
  (cowTraverse heap owner (codec.tid tag) (replaceWriter codec tag)).bind fun result =>
    match result.2 with
    | some _ => some (result.1, true)
    | none => (add codec result.1 owner tag).map fun added => (added, false)

def peek (tid : Tid) : Option (Option Value) :=
  (find heap tid heap.nodes.length (heap.follow (.head owner))).bind fun found =>
    match found with
    | none => some none
    | some cur => (heap.node cur).map fun node => some (codec.deserialize tid node.load.data)

/-- Free a node, once the loop has moved past it. -/
def freePrev : Option Nat -> TagHeap Tid
  | none => heap
  | some prev => heap.free prev

def removeAllLoop : Nat -> TagHeap Tid -> Option Nat -> Option Nat -> Option (TagHeap Tid × Option Nat)
  | _, heap, prev, none => some (heap, prev)
  | 0, _, _, some _ => none
  | fuel + 1, heap, prev, some cur =>
    (heap.node cur).bind fun node =>
      if node.count - 1 > 0 then some (heap.disown cur, prev)
      else removeAllLoop fuel (freePrev (heap.disown cur) prev) (some cur) node.next

def removeAll : Option (TagHeap Tid) :=
  (removeAllLoop heap.nodes.length heap none (heap.follow (.head owner))).map fun result =>
    (freePrev result.1 result.2).point (.head owner) none

/-- The copy constructor. -/
def copy (source : Nat) : Option (TagHeap Tid) :=
  match heap.follow (.head source) with
  | none => some (heap.push none)
  | some head => (heap.node head).map fun _ => (heap.push (some head)).adopt (some head)

def assign (owner source : Nat) : Option (TagHeap Tid) :=
  if heap.follow (.head owner) = heap.follow (.head source) then some heap
  else
    (removeAll heap owner).bind fun heap =>
      let head := heap.follow (.head source)
      match head with
      | none => some (heap.point (.head owner) none)
      | some location =>
        (heap.node location).map fun _ => (heap.point (.head owner) head).adopt head

end PacketTagList

end Ns3.Network
