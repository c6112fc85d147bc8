import Mathlib.Algebra.BigOperators.Group.Multiset.Basic
import Mathlib.Data.UInt

/-!
# Queue discs

A queue disc keeps its packets in internal queues and in the queue discs of its classes. Both report
to it what they have enqueued, dequeued and dropped, and it counts what is reported.
-/

namespace Ns3.TrafficControl

structure QueueItem where
  /-- Which of the objects it is. -/
  uid : Nat
  size : UInt32
  txQueueIndex : Nat
  /-- Whether `Mark` of the item succeeds. -/
  markable : Bool := false
  deriving DecidableEq

/-- Packets and bytes, as the totals count them. -/
abbrev Count := UInt32 × UInt64

def QueueItem.count (item : QueueItem) : Count :=
  (1, item.size.toUInt64)

/-- What counters of 32 bits make of it. -/
def narrow (count : Count) : UInt32 × UInt32 :=
  (count.1, count.2.toUInt32)

/-- What a queue disc, or an internal queue, reports to the one above it. -/
inductive QueueEvent where
  | enqueue (item : QueueItem)
  | dequeue (item : QueueItem)
  | dropBeforeEnqueue (item : QueueItem)
  | dropAfterDequeue (item : QueueItem)
  | mark (item : QueueItem)
  deriving DecidableEq

/-- A queue disc without its queues and classes. -/
structure QueueNode where
  /-- `m_nPackets` and `m_nBytes`. -/
  current : UInt32 × UInt32 := (0, 0)
  totalReceived : Count := (0, 0)
  totalEnqueued : Count := (0, 0)
  totalDequeued : Count := (0, 0)
  totalDroppedBeforeEnqueue : Count := (0, 0)
  totalDroppedAfterDequeue : Count := (0, 0)
  totalRequeued : Count := (0, 0)
  totalMarked : UInt32 × UInt32 := (0, 0)
  requeued : Option QueueItem := none
  peeked : Bool := false
  deriving DecidableEq

namespace QueueNode

variable (node : QueueNode)

variable (item : QueueItem)

def packetEnqueued : QueueNode × List QueueEvent :=
  ({ node with current := node.current + narrow item.count, totalEnqueued := node.totalEnqueued + item.count },
    [.enqueue item])

/-- A packet that is taken out because of a peek is still held. -/
def packetDequeued : QueueNode × List QueueEvent :=
  if node.peeked then (node, []) else
    ({ node with current := node.current - narrow item.count, totalDequeued := node.totalDequeued + item.count },
      [.dequeue item])

def dropBeforeEnqueue : QueueNode × List QueueEvent :=
  ({ node with totalDroppedBeforeEnqueue := node.totalDroppedBeforeEnqueue + item.count }, [.dropBeforeEnqueue item])

def dropAfterDequeue : QueueNode × List QueueEvent :=
  let counted := { node with totalDroppedAfterDequeue := node.totalDroppedAfterDequeue + item.count }
  if node.peeked then
    -- `m_peeked` is put aside while the packet is dequeued
    let (dequeued, events) := packetDequeued { counted with peeked := false } item
    ({ dequeued with peeked := true }, events ++ [.dropAfterDequeue item])
  else (counted, [.dropAfterDequeue item])

def mark : QueueNode × List QueueEvent :=
  if item.markable then
    ({ node with totalMarked := node.totalMarked + narrow item.count }, [.mark item])
    else (node, [])

/-- The callback of a report. -/
def notify : QueueEvent -> QueueNode × List QueueEvent
  | .enqueue item => node.packetEnqueued item
  | .dequeue item => node.packetDequeued item
  | .dropBeforeEnqueue item => node.dropBeforeEnqueue item
  | .dropAfterDequeue item => node.dropAfterDequeue item
  | .mark item => node.mark item

def notifyAll : List QueueEvent -> QueueNode -> QueueNode × List QueueEvent
  | [], node => (node, [])
  | event :: events, node =>
    let (first, reported) := node.notify event
    let (last, others) := notifyAll events first
    (last, reported ++ others)

/-- The beginning of `Enqueue`. -/
def receive : QueueNode :=
  { node with totalReceived := node.totalReceived + item.count }

/-- The beginning of `DoPeek`. -/
def beginPeek : QueueNode :=
  { node with peeked := true }

/-- The end of `DoPeek`. -/
def endPeek (result : Option QueueItem) : QueueNode :=
  { node with requeued := result, peeked := result.isSome }

/-- The stored packet is handed out; one that has been peeked at is only dequeued now. -/
def release : QueueNode × List QueueEvent :=
  let released := { node with requeued := none }
  if node.peeked then packetDequeued { released with peeked := false } item else (released, [])

/-- The device cannot take the packet. -/
def requeue : QueueNode :=
  { node with requeued := some item, totalRequeued := node.totalRequeued + item.count }

/-- The packet stored by a peek, which still counts as queued. -/
def stored : Multiset QueueItem :=
  if node.peeked then node.requeued.toList else 0

/-- The packet that the device could not take, which has been dequeued. -/
def pending : Multiset QueueItem :=
  if node.peeked then 0 else node.requeued.toList

end QueueNode

inductive QueueDisc where
  | mk (node : QueueNode) (queues : List (List QueueItem)) (classes : List QueueDisc)

namespace QueueDisc

def node : QueueDisc -> QueueNode
  | mk node _ _ => node

def classes : QueueDisc -> List QueueDisc
  | mk _ _ classes => classes

mutual

/-- What is in the internal queues and in the classes, and the packet stored by a peek. -/
def held : QueueDisc -> Multiset QueueItem
  | mk node queues classes => node.stored + (queues.flatten + heldByClasses classes)

def heldByClasses : List QueueDisc -> Multiset QueueItem
  | [] => 0
  | child :: classes => child.held + heldByClasses classes

end

mutual

/-- The queue disc and those below it. -/
def levels : QueueDisc -> List QueueDisc
  | mk node queues classes => mk node queues classes :: levelsOfClasses classes

def levelsOfClasses : List QueueDisc -> List QueueDisc
  | [] => []
  | child :: classes => child.levels ++ levelsOfClasses classes

end

/-- `Dequeue` or `DequeuePacket`, of the packet that has been put back or peeked at. -/
def release (item : QueueItem) : QueueDisc -> QueueDisc × List QueueEvent
  | mk node queues classes => (mk (node.release item).1 queues classes, (node.release item).2)

/-- `Requeue`. -/
def requeue (item : QueueItem) : QueueDisc -> QueueDisc
  | mk node queues classes => mk (node.requeue item) queues classes

/-- Nothing has been enqueued yet. -/
inductive Initial : QueueDisc -> Prop where
  | mk {queues classes} (noPackets : ∀ queue ∈ queues, queue = []) (initial : ∀ child ∈ classes, Initial child) :
      Initial (mk {} queues classes)

end QueueDisc

/-- What the code of a discipline has in its hands. -/
structure QueueHand where
  /-- The packet to enqueue, until it is accepted or dropped. -/
  fresh : Option QueueItem := none
  /-- What has been taken out. -/
  taken : Multiset QueueItem := 0

inductive QueueCall where
  | enqueue (item : QueueItem)
  | dequeue (result : Option QueueItem)
  | peek (result : Option QueueItem)
  /-- What `DoEnqueue`, `DoDequeue` or an own `DoPeek` goes through. -/
  | discipline (before after : QueueHand)

/-- How a call of a class changes what the discipline has in its hands. -/
inductive QueueCall.Hands : QueueCall -> QueueHand -> QueueHand -> Prop where
  | enqueue {item taken} : Hands (.enqueue item) ⟨some item, taken⟩ ⟨none, taken⟩
  | dequeue {result fresh taken} : Hands (.dequeue result) ⟨fresh, taken⟩ ⟨fresh, result.toList + taken⟩
  | peek {result hand} : Hands (.peek result) hand hand

/-- A call changes a queue disc and those below it, and reports what it has done. A discipline may
do what it likes with its queues and classes, as long as it leaves no packet behind. -/
inductive Performs : QueueCall -> QueueDisc -> QueueDisc -> List QueueEvent -> Prop where
  | enqueue {item node queues classes after events} (doEnqueue : Performs (.discipline ⟨some item, 0⟩ ⟨none, 0⟩)
        ⟨node.receive item, queues, classes⟩ after events) :
      Performs (.enqueue item) ⟨node, queues, classes⟩ after events
  | dequeueRequeued {item disc} (isRequeued : disc.node.requeued = some item) :
      Performs (.dequeue (some item)) disc (disc.release item).1 (disc.release item).2
  | dequeue {result node queues classes after events} (noRequeued : node.requeued = none)
      (doDequeue : Performs (.discipline ⟨none, 0⟩ ⟨none, result.toList⟩) ⟨node, queues, classes⟩ after events) :
      Performs (.dequeue result) ⟨node, queues, classes⟩ after events
  | peekRequeued {item disc} (isRequeued : disc.node.requeued = some item) : Performs (.peek (some item)) disc disc []
  /-- As there is no requeued packet, `Dequeue` calls `DoDequeue`. -/
  | peek {result node queues classes found queues' classes' events} (noRequeued : node.requeued = none)
      (doDequeue : Performs (.discipline ⟨none, 0⟩ ⟨none, result.toList⟩)
        ⟨node.beginPeek, queues, classes⟩ ⟨found, queues', classes'⟩ events) :
      Performs (.peek result) ⟨node, queues, classes⟩ ⟨found.endPeek result, queues', classes'⟩ events
  /-- A `DoPeek` of its own looks at its queues or peeks at its classes. -/
  | doPeek {result disc after events} (doPeek : Performs (.discipline ⟨none, 0⟩ ⟨none, 0⟩) disc after events)
      (isHeld : ∀ item ∈ result, item ∈ after.held) :
      Performs (.peek result) disc after events
  | stop {hand disc} : Performs (.discipline hand hand) disc disc []
  | enqueueInternal {item taken hand node before front back others classes after events}
      (rest : Performs (.discipline ⟨none, taken⟩ hand)
        ⟨(node.packetEnqueued item).1, before ++ (front ++ item :: back) :: others, classes⟩ after events) :
      Performs (.discipline ⟨some item, taken⟩ hand) ⟨node, before ++ (front ++ back) :: others, classes⟩ after
        ((node.packetEnqueued item).2 ++ events)
  /-- An internal queue has no room, or the discipline drops the packet itself. -/
  | dropBeforeEnqueue {item taken hand node queues classes after events}
      (rest : Performs (.discipline ⟨none, taken⟩ hand)
        ⟨(node.dropBeforeEnqueue item).1, queues, classes⟩ after events) :
      Performs (.discipline ⟨some item, taken⟩ hand) ⟨node, queues, classes⟩ after
        ((node.dropBeforeEnqueue item).2 ++ events)
  | dequeueInternal {item fresh taken hand node before front back others classes after events}
      (rest : Performs (.discipline ⟨fresh, item ::ₘ taken⟩ hand)
        ⟨(node.packetDequeued item).1, before ++ (front ++ back) :: others, classes⟩ after events) :
      Performs (.discipline ⟨fresh, taken⟩ hand) ⟨node, before ++ (front ++ item :: back) :: others, classes⟩ after
        ((node.packetDequeued item).2 ++ events)
  | dropAfterDequeue {item fresh taken hand node queues classes after events}
      (rest : Performs (.discipline ⟨fresh, taken⟩ hand)
        ⟨(node.dropAfterDequeue item).1, queues, classes⟩ after events) :
      Performs (.discipline ⟨fresh, item ::ₘ taken⟩ hand) ⟨node, queues, classes⟩ after
        ((node.dropAfterDequeue item).2 ++ events)
  | mark {item before hand node queues classes after events}
      (rest : Performs (.discipline before hand) ⟨(node.mark item).1, queues, classes⟩ after events) :
      Performs (.discipline before hand) ⟨node, queues, classes⟩ after ((node.mark item).2 ++ events)
  | callChild {call start between hand node queues front child child' back reports after events}
      (hands : call.Hands start between) (calls : Performs call child child' reports)
      (rest : Performs (.discipline between hand)
        ⟨(node.notifyAll reports).1, queues, front ++ child' :: back⟩ after events) :
      Performs (.discipline start hand) ⟨node, queues, front ++ child :: back⟩ after
        ((node.notifyAll reports).2 ++ events)
  /-- A packet is pulled out of an internal queue of a class that nobody has peeked at. -/
  | pull {item fresh taken hand node queues front childNode before head tail others classes back after events}
      (notPeeked : childNode.peeked = false)
      (rest : Performs (.discipline ⟨fresh, item ::ₘ taken⟩ hand)
        ⟨(node.notifyAll (childNode.packetDequeued item).2).1, queues,
          front ++ ⟨(childNode.packetDequeued item).1, before ++ (head ++ tail) :: others, classes⟩ :: back⟩ after
          events) :
      Performs (.discipline ⟨fresh, taken⟩ hand)
        ⟨node, queues, front ++ ⟨childNode, before ++ (head ++ item :: tail) :: others, classes⟩ :: back⟩ after
        ((node.notifyAll (childNode.packetDequeued item).2).2 ++ events)

end Ns3.TrafficControl
