import Mathlib.Tactic.Abel
import Ns3.TrafficControl.QueueDisc

/-!
# Accounting of queue discs

Each counter of a queue disc changes by what it reports, and what it reports is what its queues and
classes have taken in and given out. While a peek is going on, what is taken out is not yet reported
but has not left either.
-/

namespace Ns3.TrafficControl

open List Option Multiset QueueDisc QueueHand
open scoped UInt32.CommRing UInt64.CommRing

/-- What the totals make of some packets. -/
noncomputable def countOf (items : Multiset QueueItem) : Count :=
  (items.map QueueItem.count).sum

@[simp] theorem narrow_zero : narrow 0 = 0 := rfl

theorem narrow_add (count other : Count) : narrow (count + other) = narrow count + narrow other :=
  Prod.ext rfl (UInt64.toUInt32_add _ _)

theorem narrow_sub (count other : Count) : narrow (count - other) = narrow count - narrow other :=
  Prod.ext rfl (UInt64.toUInt32_sub _ _)

theorem countOf_add (items others : Multiset QueueItem) :
    countOf (items + others) = countOf items + countOf others := by
  rw [countOf, map_add, sum_add]
  rfl

@[simp] theorem countOf_singleton (item : QueueItem) : countOf {item} = item.count := by
  simp [countOf]

@[simp] theorem countOf_zero : countOf 0 = 0 := rfl

namespace QueueEvent

@[simp] def enqueued : QueueEvent -> Option QueueItem
  | enqueue item => some item
  | _ => none

@[simp] def dequeued : QueueEvent -> Option QueueItem
  | dequeue item => some item
  | _ => none

@[simp] def droppedBefore : QueueEvent -> Option QueueItem
  | dropBeforeEnqueue item => some item
  | _ => none

@[simp] def droppedAfter : QueueEvent -> Option QueueItem
  | dropAfterDequeue item => some item
  | _ => none

end QueueEvent

/-- The packets of the reports of one kind. -/
def reported (kind : QueueEvent -> Option QueueItem) (events : List QueueEvent) : Multiset QueueItem :=
  events.filterMap kind

section Reported

variable {kind : QueueEvent -> Option QueueItem}

@[simp] theorem reported_nil : reported kind [] = 0 := rfl

theorem reported_append (events others : List QueueEvent) :
    reported kind (events ++ others) = reported kind events + reported kind others := by
  simp [reported]

theorem reported_cons (event : QueueEvent) (events : List QueueEvent) :
    reported kind (event :: events) = reported kind [event] + reported kind events :=
  reported_append [event] events

@[simp] theorem reported_singleton (event : QueueEvent) : reported kind [event] = (kind event).toList := by
  cases isKind : kind event <;> simp [reported, isKind]

@[simp] theorem reported_cons_cons (event next : QueueEvent) (events : List QueueEvent) :
    reported kind (event :: next :: events) = (kind event).toList + reported kind (next :: events) := by
  rw [reported_cons, reported_singleton]

end Reported

open QueueEvent

/-! ## Counters and reports -/

/-- The counters have changed by what has been reported. -/
structure QueueNode.Counts (node after : QueueNode) (events : List QueueEvent) : Prop where
  current : after.current =
    node.current + narrow (countOf (reported enqueued events)) - narrow (countOf (reported dequeued events))
  totalEnqueued : after.totalEnqueued = node.totalEnqueued + countOf (reported enqueued events)
  totalDequeued : after.totalDequeued = node.totalDequeued + countOf (reported dequeued events)
  totalDroppedBeforeEnqueue :
    after.totalDroppedBeforeEnqueue = node.totalDroppedBeforeEnqueue + countOf (reported droppedBefore events)
  totalDroppedAfterDequeue :
    after.totalDroppedAfterDequeue = node.totalDroppedAfterDequeue + countOf (reported droppedAfter events)

/-- What is set elsewhere. -/
structure QueueNode.Same (node after : QueueNode) : Prop where
  totalReceived : after.totalReceived = node.totalReceived
  requeued : after.requeued = node.requeued
  peeked : after.peeked = node.peeked

namespace QueueNode

variable {node middle after : QueueNode} {events others reports : List QueueEvent} {item : QueueItem}

theorem Counts.refl (node : QueueNode) : node.Counts node [] := by
  constructor <;> simp

theorem Counts.trans (first : node.Counts middle events) (second : middle.Counts after others) :
    node.Counts after (events ++ others) where
  current := by
    rw [second.current, first.current, reported_append, reported_append, countOf_add, countOf_add, narrow_add,
      narrow_add]
    abel
  totalEnqueued := by rw [second.totalEnqueued, first.totalEnqueued, reported_append, countOf_add, add_assoc]
  totalDequeued := by rw [second.totalDequeued, first.totalDequeued, reported_append, countOf_add, add_assoc]
  totalDroppedBeforeEnqueue := by
    rw [second.totalDroppedBeforeEnqueue, first.totalDroppedBeforeEnqueue, reported_append, countOf_add, add_assoc]
  totalDroppedAfterDequeue := by
    rw [second.totalDroppedAfterDequeue, first.totalDroppedAfterDequeue, reported_append, countOf_add, add_assoc]

theorem Same.refl (node : QueueNode) : node.Same node :=
  ⟨rfl, rfl, rfl⟩

theorem Same.trans (first : node.Same middle) (second : middle.Same after) : node.Same after :=
  ⟨second.totalReceived.trans first.totalReceived, second.requeued.trans first.requeued,
    second.peeked.trans first.peeked⟩

/-- What a queue disc does with reports from below: while it is peeking, what has been dequeued is
not passed on unless it is dropped. -/
structure Relays (node : QueueNode) (reports : List QueueEvent) (after : QueueNode)
    (events : List QueueEvent) : Prop where
  counts : node.Counts after events
  same : node.Same after
  enqueued : reported enqueued events = reported enqueued reports
  droppedBefore : reported droppedBefore events = reported droppedBefore reports
  droppedAfter : reported droppedAfter events = reported droppedAfter reports
  dequeued : reported dequeued events =
    reported (if node.peeked then QueueEvent.droppedAfter else QueueEvent.dequeued) reports

theorem packetEnqueued_relays (node : QueueNode) (item : QueueItem) :
    node.Relays [.enqueue item] (node.packetEnqueued item).1 (node.packetEnqueued item).2 := by
  refine ⟨?_, ⟨rfl, rfl, rfl⟩, rfl, rfl, rfl, ?_⟩
  · constructor <;> simp [packetEnqueued]
  · cases isPeeked : node.peeked <;> rfl

theorem packetDequeued_relays (node : QueueNode) (item : QueueItem) :
    node.Relays [.dequeue item] (node.packetDequeued item).1 (node.packetDequeued item).2 := by
  unfold packetDequeued
  cases isPeeked : node.peeked with
  | true => exact ⟨Counts.refl node, Same.refl node, rfl, rfl, rfl, by simp [isPeeked]⟩
  | false =>
    refine ⟨?_, ⟨rfl, rfl, isPeeked.symm ▸ rfl⟩, rfl, rfl, rfl, by simp [isPeeked]⟩
    constructor <;> simp

theorem dropBeforeEnqueue_relays (node : QueueNode) (item : QueueItem) :
    node.Relays [.dropBeforeEnqueue item] (node.dropBeforeEnqueue item).1 (node.dropBeforeEnqueue item).2 := by
  refine ⟨?_, ⟨rfl, rfl, rfl⟩, rfl, rfl, rfl, ?_⟩
  · constructor <;> simp [dropBeforeEnqueue]
  · cases isPeeked : node.peeked <;> rfl

/-- A packet that is dropped during a peek is reported as dequeued first. -/
theorem dropAfterDequeue_relays (node : QueueNode) (item : QueueItem) :
    node.Relays [.dropAfterDequeue item] (node.dropAfterDequeue item).1 (node.dropAfterDequeue item).2 := by
  unfold dropAfterDequeue packetDequeued
  cases isPeeked : node.peeked with
  | true =>
    refine ⟨?_, ⟨rfl, rfl, isPeeked.symm⟩, by simp, by simp, by simp, by simp [isPeeked]⟩
    constructor <;> simp
  | false =>
    refine ⟨?_, ⟨rfl, rfl, isPeeked.symm⟩, rfl, rfl, rfl, by simp [isPeeked]⟩
    constructor <;> simp

theorem mark_relays (node : QueueNode) (item : QueueItem) :
    node.Relays [.mark item] (node.mark item).1 (node.mark item).2 := by
  unfold mark
  split
  · refine ⟨?_, ⟨rfl, rfl, rfl⟩, rfl, rfl, rfl, ?_⟩
    · constructor <;> simp
    · cases isPeeked : node.peeked <;> rfl
  · refine ⟨Counts.refl node, Same.refl node, rfl, rfl, rfl, ?_⟩
    cases isPeeked : node.peeked <;> rfl

theorem notify_relays (node : QueueNode) (event : QueueEvent) :
    node.Relays [event] (node.notify event).1 (node.notify event).2 := by
  cases event with
  | enqueue item => exact packetEnqueued_relays node item
  | dequeue item => exact packetDequeued_relays node item
  | dropBeforeEnqueue item => exact dropBeforeEnqueue_relays node item
  | dropAfterDequeue item => exact dropAfterDequeue_relays node item
  | mark item => exact mark_relays node item

theorem notifyAll_relays (reports : List QueueEvent) (node : QueueNode) :
    node.Relays reports (notifyAll reports node).1 (notifyAll reports node).2 := by
  induction reports generalizing node with
  | nil => exact ⟨Counts.refl node, Same.refl node, rfl, rfl, rfl, rfl⟩
  | cons report reports ih =>
    have first := notify_relays node report
    have later := ih (node.notify report).1
    have dequeued := later.dequeued
    rw [first.same.peeked] at dequeued
    unfold notifyAll
    refine ⟨first.counts.trans later.counts, first.same.trans later.same, ?_, ?_, ?_, ?_⟩
    · rw [reported_append, first.enqueued, later.enqueued, ← reported_cons]
    · rw [reported_append, first.droppedBefore, later.droppedBefore, ← reported_cons]
    · rw [reported_append, first.droppedAfter, later.droppedAfter, ← reported_cons]
    · rw [reported_append, first.dequeued, dequeued, ← reported_cons]

/-- The books of a queue disc that holds `held`, as far as the counters go. -/
structure Balanced (node : QueueNode) (held : Multiset QueueItem) : Prop where
  received : node.totalReceived = node.totalEnqueued + node.totalDroppedBeforeEnqueue
  current : node.current = narrow (node.totalEnqueued - node.totalDequeued)
  held : node.totalEnqueued - node.totalDequeued = countOf held

theorem Balanced.step {held left entering : Multiset QueueItem} (balanced : node.Balanced held)
    (counts : node.Counts after events) (received : after.totalReceived = node.totalReceived + countOf entering)
    (moved : held + reported enqueued events = left + reported dequeued events)
    (entered : reported enqueued events + reported droppedBefore events = entering) : after.Balanced left where
  received := by
    rw [received, balanced.received, counts.totalEnqueued, counts.totalDroppedBeforeEnqueue, ← entered, countOf_add]
    abel
  current := by
    rw [counts.current, balanced.current, counts.totalEnqueued, counts.totalDequeued, ← narrow_add, ← narrow_sub]
    congr 1
    abel
  held := by
    have counted := congrArg countOf moved
    rw [countOf_add, countOf_add, ← balanced.held] at counted
    rw [counts.totalEnqueued, counts.totalDequeued, ← add_sub_cancel_right (countOf left), ← counted]
    abel

end QueueNode

/-! ## Trees -/

namespace QueueDisc

variable {node : QueueNode} {queues : List (List QueueItem)} {children front back : List QueueDisc}
  {child : QueueDisc}

@[simp] theorem node_mk : (mk node queues children).node = node := rfl

theorem held_mk : (mk node queues children).held = node.stored + (queues.flatten + heldByClasses children) := by
  rw [held]

theorem heldByClasses_cons : heldByClasses (child :: children) = child.held + heldByClasses children := by
  rw [heldByClasses]

theorem heldByClasses_append : heldByClasses (front ++ back) = heldByClasses front + heldByClasses back := by
  induction front with
  | nil => rw [nil_append, heldByClasses, zero_add]
  | cons child front ih =>
    rw [cons_append, heldByClasses, heldByClasses, ih, add_assoc]

/-- The books are right here and below; only a packet that a peek has stored waits there, and none
but the root has a packet that the device could not take. -/
inductive Exact : QueueDisc -> Prop where
  | mk {node queues classes} (balanced : node.Balanced (mk node queues classes).held)
      (stored : node.peeked -> node.requeued.isSome) (noPending : ∀ child ∈ classes, child.node.pending = 0)
      (exact : ∀ child ∈ classes, Exact child) : Exact (mk node queues classes)

/-- Each class is exact, and has no packet waiting for the device. -/
def ClassesExact (classes : List QueueDisc) : Prop :=
  ∀ child ∈ classes, child.Exact ∧ child.node.pending = 0

variable {disc : QueueDisc}

theorem Exact.balanced (exact : disc.Exact) : disc.node.Balanced disc.held := by
  cases exact with
  | mk balanced stored noPending exact => exact balanced

theorem Exact.stored (exact : disc.Exact) : disc.node.peeked -> disc.node.requeued.isSome := by
  cases exact with
  | mk balanced stored noPending exact => exact stored

theorem Exact.classesExact (exact : disc.Exact) : ClassesExact disc.classes := by
  cases exact with
  | mk balanced stored noPending exact => exact fun child mem => ⟨exact child mem, noPending child mem⟩

theorem Exact.intro (balanced : disc.node.Balanced disc.held)
    (stored : disc.node.peeked -> disc.node.requeued.isSome) (classes : ClassesExact disc.classes) : disc.Exact := by
  cases disc with
  | mk node queues children =>
    exact .mk balanced stored (fun child mem => (classes child mem).2) fun child mem => (classes child mem).1

theorem ClassesExact.replace {child' : QueueDisc} (exact : ClassesExact (front ++ child :: back))
    (isExact : child'.Exact)
    (noPending : child'.node.pending = 0) : ClassesExact (front ++ child' :: back) := by
  intro other mem
  rcases mem_append.mp mem with inFront | inRest
  · exact exact other (mem_append_left _ inFront)
  · rcases mem_cons.mp inRest with rfl | inBack
    · exact ⟨isExact, noPending⟩
    · exact exact other (mem_append_right _ (mem_cons_of_mem _ inBack))

theorem ClassesExact.inner (exact : ClassesExact (front ++ child :: back)) : child.Exact ∧ child.node.pending = 0 :=
  exact child (mem_append_right _ mem_cons_self)

end QueueDisc

/-! ## What a discipline does -/

namespace QueueHand

/-- What is still to be enqueued. -/
def waiting (hand : QueueHand) : Multiset QueueItem :=
  hand.fresh.toList

/-- What counts as held although it has been taken out. -/
def uncounted (hand : QueueHand) (node : QueueNode) : Multiset QueueItem :=
  if node.peeked then hand.taken else 0

end QueueHand

/-- No packet is lost between the hands of the discipline and its queues and classes. -/
structure Moves (start hand : QueueHand) (disc after : QueueDisc) (events : List QueueEvent) : Prop where
  counts : disc.node.Counts after.node events
  same : disc.node.Same after.node
  moved : disc.held + reported enqueued events + start.uncounted disc.node =
    after.held + reported dequeued events + hand.uncounted disc.node
  carried : start.taken + disc.held + reported enqueued events = hand.taken + after.held + reported droppedAfter events
  entered : start.waiting = reported enqueued events + reported droppedBefore events + hand.waiting
  classes : QueueDisc.ClassesExact after.classes

section Moves

variable {start between hand : QueueHand} {disc middle after : QueueDisc} {events others : List QueueEvent}

theorem Moves.refl (classes : QueueDisc.ClassesExact disc.classes) : Moves hand hand disc disc [] where
  counts := QueueNode.Counts.refl disc.node
  same := QueueNode.Same.refl disc.node
  moved := rfl
  carried := rfl
  entered := by rw [reported_nil, reported_nil, zero_add, zero_add]
  classes := classes

theorem uncounted_congr (same : disc.node.Same middle.node) (hand : QueueHand) :
    hand.uncounted middle.node = hand.uncounted disc.node := by
  rw [uncounted, uncounted, same.peeked]

theorem Moves.trans (first : Moves start between disc middle events) (second : Moves between hand middle after others) :
    Moves start hand disc after (events ++ others) where
  counts := first.counts.trans second.counts
  same := first.same.trans second.same
  moved := by
    have before := first.moved
    have later := second.moved
    rw [uncounted_congr first.same, uncounted_congr first.same] at later
    simp only [reported_append]
    ext item
    have inFirst := congrArg (Multiset.count item) before
    have inSecond := congrArg (Multiset.count item) later
    simp only [Multiset.count_add] at inFirst inSecond ⊢
    omega
  carried := by
    simp only [reported_append]
    ext item
    have inFirst := congrArg (Multiset.count item) first.carried
    have inSecond := congrArg (Multiset.count item) second.carried
    simp only [Multiset.count_add] at inFirst inSecond ⊢
    omega
  entered := by
    rw [first.entered, second.entered, reported_append, reported_append]
    abel
  classes := second.classes

theorem Moves.andThen (first : Moves start between disc middle events)
    (second : QueueDisc.ClassesExact middle.classes -> Moves between hand middle after others) :
    Moves start hand disc after (events ++ others) :=
  first.trans (second first.classes)

/-- The packets of the internal queues and of the classes. -/
def inside (queues : List (List QueueItem)) (classes : List QueueDisc) : Multiset QueueItem :=
  queues.flatten + QueueDisc.heldByClasses classes

theorem inside_insert (item : QueueItem) (before others : List (List QueueItem)) (front back : List QueueItem)
    (classes : List QueueDisc) :
    inside (before ++ (front ++ item :: back) :: others) classes =
      {item} + inside (before ++ (front ++ back) :: others) classes := by
  have inQueues : ((before ++ (front ++ item :: back) :: others).flatten : Multiset QueueItem) =
      {item} + ((before ++ (front ++ back) :: others).flatten : Multiset QueueItem) := by
    simp only [flatten_append, flatten_cons, ← coe_add, ← cons_coe, ← singleton_add]
    abel
  rw [inside, inQueues, inside, add_assoc]

theorem inside_replace (queues : List (List QueueItem)) (front back : List QueueDisc) (child : QueueDisc) :
    inside queues (front ++ child :: back) = child.held + inside queues (front ++ back) := by
  simp only [inside, heldByClasses_append, heldByClasses_cons]
  abel

variable {node node' : QueueNode} {queues queues' : List (List QueueItem)} {children children' : List QueueDisc}
  {reports : List QueueEvent}

theorem Moves.of_relays (relays : node.Relays reports node' events) (classes : QueueDisc.ClassesExact children')
    (moved : inside queues children + reported enqueued reports = inside queues' children' + reported dequeued reports)
    (carried : start.taken + inside queues children + reported enqueued reports =
      hand.taken + inside queues' children' + reported droppedAfter reports)
    (entered : start.waiting = reported enqueued reports + reported droppedBefore reports + hand.waiting) :
    Moves start hand (.mk node queues children) (.mk node' queues' children') events := by
  have stored : node'.stored = node.stored := by
    rw [QueueNode.stored, QueueNode.stored, relays.same.peeked, relays.same.requeued]
  refine ⟨relays.counts, relays.same, ?_, ?_, ?_, classes⟩
  · simp only [held_mk, node_mk, uncounted, stored, relays.enqueued, relays.dequeued]
    rw [← inside, ← inside]
    rcases Bool.eq_false_or_eq_true node.peeked with isPeeked | isPeeked
    · simp only [isPeeked, if_true]
      ext item
      have count := congrArg (Multiset.count item) carried
      simp only [Multiset.count_add] at count ⊢
      omega
    · simp only [isPeeked, Bool.false_eq_true, if_false]
      rw [add_assoc node.stored, moved]
      abel
  · simp only [held_mk, stored, relays.enqueued, relays.droppedAfter]
    rw [← inside, ← inside]
    ext item
    have count := congrArg (Multiset.count item) carried
    simp only [Multiset.count_add] at count ⊢
    omega
  · rw [relays.enqueued, relays.droppedBefore, entered]

end Moves

/-! ## What a call does -/

namespace QueueCall

/-- What comes in from above. -/
def entering : QueueCall -> Multiset QueueItem
  | enqueue item => {item}
  | _ => 0

/-- What is handed out. -/
def leaving : QueueCall -> Multiset QueueItem
  | dequeue result => result.toList
  | _ => 0

theorem leaving_peek (result : Option QueueItem) : (peek result).leaving = 0 := rfl

variable {call : QueueCall} {start between : QueueHand}

theorem Hands.taken (hands : call.Hands start between) : between.taken = call.leaving + start.taken := by
  cases hands with
  | enqueue => exact (zero_add _).symm
  | dequeue => rfl
  | peek => exact (zero_add _).symm

theorem Hands.waiting (hands : call.Hands start between) : start.waiting = call.entering + between.waiting := by
  cases hands with
  | enqueue => rfl
  | dequeue => exact (zero_add _).symm
  | peek => exact (zero_add _).symm

end QueueCall

structure Effect (call : QueueCall) (disc after : QueueDisc) (events : List QueueEvent) : Prop where
  counts : disc.node.Counts after.node events
  moved : disc.held + reported enqueued events = after.held + reported dequeued events
  left : disc.node.pending + reported dequeued events = after.node.pending + call.leaving + reported droppedAfter events
  entered : reported enqueued events + reported droppedBefore events = call.entering
  pending : after.node.pending ≤ disc.node.pending
  waits : disc.node.pending ≤ after.node.pending + call.leaving
  exact : after.Exact

section Effect

variable {node : QueueNode} {queues : List (List QueueItem)} {children : List QueueDisc} {item : QueueItem}
  {result : Option QueueItem} {disc after : QueueDisc} {events : List QueueEvent}

theorem QueueNode.Same.pending {after : QueueNode} (same : node.Same after) : after.pending = node.pending := by
  rw [QueueNode.pending, QueueNode.pending, same.peeked, same.requeued]

theorem QueueNode.Same.stores {after : QueueNode} (same : node.Same after)
    (stored : node.peeked -> node.requeued.isSome) : after.peeked -> after.requeued.isSome := by
  rw [same.peeked, same.requeued]
  exact stored

/-- While nobody peeks, what has been dequeued has been handed out or dropped. -/
theorem Moves.dequeued {start hand : QueueHand} (moves : Moves start hand disc after events)
    (nothing : start.taken = 0) (same : hand.uncounted disc.node = 0) :
    reported dequeued events = hand.taken + reported droppedAfter events := by
  have moved := moves.moved
  have carried := moves.carried
  have uncounted : start.uncounted disc.node = 0 := by
    rw [uncounted, nothing, ite_self]
  rw [nothing] at carried
  rw [uncounted, same] at moved
  ext item
  have inMoved := congrArg (Multiset.count item) moved
  have inCarried := congrArg (Multiset.count item) carried
  simp only [Multiset.count_add, Multiset.count_zero] at inMoved inCarried ⊢
  omega

theorem uncounted_zero (fresh : Option QueueItem) (node : QueueNode) : uncounted ⟨fresh, 0⟩ node = 0 :=
  ite_self 0

theorem Moves.effect {call : QueueCall} {start hand : QueueHand} {between : QueueDisc} (exact : disc.Exact)
    (moves : Moves start hand between after events) (hands : call.Hands start hand) (nothing : start.taken = 0)
    (uncounted : hand.uncounted between.node = 0) (counts : disc.node.Counts after.node events)
    (held : between.held = disc.held) (pending : between.node.pending = disc.node.pending)
    (stored : between.node.peeked -> between.node.requeued.isSome)
    (received : between.node.totalReceived = disc.node.totalReceived + countOf call.entering) :
    Effect call disc after events := by
  have pending := moves.same.pending.trans pending
  have unstarted : start.uncounted between.node = 0 := by
    rw [QueueHand.uncounted, nothing, ite_self]
  have moved := moves.moved
  rw [unstarted, uncounted, add_zero, add_zero, held] at moved
  have entered : reported enqueued events + reported droppedBefore events = call.entering := by
    have entered := moves.entered
    rw [hands.waiting] at entered
    exact (add_right_cancel entered).symm
  refine ⟨counts, moved, ?_, entered, pending.le, pending.ge.trans (le_add_right _ _), ?_⟩
  · rw [pending, moves.dequeued nothing uncounted, hands.taken, nothing, add_zero, add_assoc]
  · apply QueueDisc.Exact.intro _ (moves.same.stores stored) moves.classes
    exact exact.balanced.step counts (moves.same.totalReceived.trans received) moved entered

section

variable (exact : (mk node queues children).Exact)
include exact

theorem enqueue_effect
    (moves : Moves ⟨some item, 0⟩ ⟨none, 0⟩ (.mk (node.receive item) queues children) after events) :
    Effect (.enqueue item) (.mk node queues children) after events := by
  have counts : node.Counts after.node events := by
    obtain ⟨current, enqueued, dequeued, before, later⟩ := moves.counts
    exact ⟨current, enqueued, dequeued, before, later⟩
  have received : (node.receive item).totalReceived = node.totalReceived + countOf {item} := by
    rw [countOf_singleton]
    rfl
  exact moves.effect exact .enqueue rfl (uncounted_zero none _) counts rfl rfl exact.stored received

theorem notPeeked_of_exact (noRequeued : node.requeued = none) : node.peeked = false := by
  cases isPeeked : node.peeked with
  | false => rfl
  | true =>
    have stored := exact.stored isPeeked
    rw [node_mk, noRequeued] at stored
    cases stored

theorem dequeue_effect (noRequeued : node.requeued = none)
    (moves : Moves ⟨none, 0⟩ ⟨none, result.toList⟩ (.mk node queues children) after events) :
    Effect (.dequeue result) (.mk node queues children) after events := by
  have hands : (QueueCall.dequeue result).Hands ⟨none, 0⟩ ⟨none, result.toList⟩ :=
    add_zero (result.toList : Multiset QueueItem) ▸ .dequeue
  have uncounted : uncounted ⟨none, result.toList⟩ node = 0 := by
    simp [uncounted, notPeeked_of_exact exact noRequeued]
  exact moves.effect exact hands rfl uncounted moves.counts rfl rfl exact.stored (add_zero _).symm

end

theorem QueueNode.stored_of_none (noRequeued : node.requeued = none) : node.stored = 0 := by
  rw [stored, noRequeued]
  exact ite_self 0

theorem QueueNode.stored_endPeek (node : QueueNode) (result : Option QueueItem) :
    (node.endPeek result).stored = result.toList := by
  cases result <;> rfl

/-- What is taken out for a peek goes from the queues and classes to the stored packet. -/
theorem peek_effect {found : QueueNode} {queues' : List (List QueueItem)} {children' : List QueueDisc}
    (exact : (mk node queues children).Exact) (noRequeued : node.requeued = none)
    (moves : Moves ⟨none, 0⟩ ⟨none, result.toList⟩ (.mk node.beginPeek queues children)
      (.mk found queues' children') events) :
    Effect (.peek result) (.mk node queues children) (.mk (found.endPeek result) queues' children') events := by
  have noStored : found.requeued = none := moves.same.requeued.trans noRequeued
  have counts : node.Counts (found.endPeek result) events := by
    obtain ⟨current, enqueued, dequeued, before, later⟩ := moves.counts
    exact ⟨current, enqueued, dequeued, before, later⟩
  have pending : (found.endPeek result).pending = node.pending := by
    cases result <;> simp [QueueNode.pending, QueueNode.endPeek, noRequeued]
  have moved := moves.moved
  have same : (mk node.beginPeek queues children).held = (mk node queues children).held := by
    rw [held_mk, held_mk, QueueNode.stored_of_none noRequeued]
    exact congrArg (· + _) (QueueNode.stored_of_none noRequeued)
  have held : (mk (found.endPeek result) queues' children').held =
      result.toList + (mk found queues' children').held := by
    rw [held_mk, held_mk, QueueNode.stored_of_none noStored, QueueNode.stored_endPeek, zero_add]
  have moved : (mk node queues children).held + reported enqueued events =
      (mk (found.endPeek result) queues' children').held + reported dequeued events := by
    rw [uncounted_zero, add_zero, same] at moved
    rw [moved, held]
    abel
  have carried := moves.carried
  rw [same, zero_add] at carried
  have dropped : reported dequeued events = reported droppedAfter events := by
    rw [moved, held] at carried
    exact add_left_cancel carried
  have entered : reported enqueued events + reported droppedBefore events = 0 := by
    simpa [waiting] using moves.entered.symm
  refine ⟨counts, moved, ?_, entered, pending.le, pending.ge.trans (le_add_right _ _), ?_⟩
  · rw [dropped, node_mk, node_mk, pending, QueueCall.leaving_peek, add_zero]
  · have classes : QueueDisc.ClassesExact (mk (found.endPeek result) queues' children').classes := moves.classes
    apply QueueDisc.Exact.intro _ _ classes
    · apply exact.balanced.step counts _ moved entered
      rw [countOf_zero, add_zero]
      exact moves.same.totalReceived
    · exact id

theorem doPeek_effect (exact : disc.Exact) (moves : Moves ⟨none, 0⟩ ⟨none, 0⟩ disc after events) :
    Effect (.peek result) disc after events :=
  moves.effect exact .peek rfl (uncounted_zero none _) moves.counts rfl rfl exact.stored (add_zero _).symm

theorem peekRequeued_effect (exact : disc.Exact) : Effect (.peek result) disc disc [] where
  counts := QueueNode.Counts.refl disc.node
  moved := rfl
  left := by rw [reported_nil, reported_nil, QueueCall.leaving_peek, add_zero, add_zero]
  entered := rfl
  pending := le_rfl
  waits := le_add_right _ _
  exact := exact

theorem release_effect (exact : disc.Exact) (isRequeued : disc.node.requeued = some item) :
    Effect (.dequeue (some item)) disc (disc.release item).1 (disc.release item).2 := by
  obtain ⟨node, queues, children⟩ := disc
  change Effect (.dequeue (some item)) (.mk node queues children) (.mk (node.release item).1 queues children)
    (node.release item).2
  rw [node_mk] at isRequeued
  have noRequeued : (node.release item).1.requeued = none := by
    unfold QueueNode.release QueueNode.packetDequeued
    split <;> rfl
  have notPeeked : (node.release item).1.peeked = false := by
    unfold QueueNode.release QueueNode.packetDequeued
    split
    · rfl
    · simpa using ‹¬ node.peeked = true›
  have received : (node.release item).1.totalReceived = node.totalReceived + countOf 0 := by
    unfold QueueNode.release QueueNode.packetDequeued
    split <;> exact (add_zero _).symm
  have counts : node.Counts (node.release item).1 (node.release item).2 := by
    unfold QueueNode.release QueueNode.packetDequeued
    split <;> constructor <;> simp
  have noStored : (node.release item).1.stored = 0 := QueueNode.stored_of_none noRequeued
  have noPending : (node.release item).1.pending = 0 := by
    rw [QueueNode.pending, noRequeued]
    exact ite_self 0
  have moved : node.stored = reported dequeued (node.release item).2 := by
    cases isPeeked : node.peeked <;>
      simp [QueueNode.stored, QueueNode.release, QueueNode.packetDequeued, isPeeked, isRequeued]
  have left : node.pending + reported dequeued (node.release item).2 = {item} := by
    cases isPeeked : node.peeked <;>
      simp [QueueNode.pending, QueueNode.release, QueueNode.packetDequeued, isPeeked, isRequeued]
  have quiet : ∀ kind : QueueEvent -> Option QueueItem, (∀ other, kind (.dequeue other) = none) ->
      reported kind (node.release item).2 = 0 := by
    intro kind isNone
    cases isPeeked : node.peeked <;> simp [QueueNode.release, QueueNode.packetDequeued, isPeeked, isNone]
  have held : (mk node queues children).held + reported enqueued (node.release item).2 =
      (mk (node.release item).1 queues children).held + reported dequeued (node.release item).2 := by
    rw [held_mk, held_mk, noStored, ← moved, quiet enqueued fun _ => rfl, zero_add, add_zero]
    exact add_comm _ _
  have entered : reported enqueued (node.release item).2 + reported droppedBefore (node.release item).2 = 0 := by
    rw [quiet enqueued fun _ => rfl, quiet droppedBefore fun _ => rfl, add_zero]
  refine ⟨counts, held, ?_, entered, ?_, ?_, ?_⟩
  · rw [node_mk, node_mk, left, noPending, quiet droppedAfter fun _ => rfl, zero_add, add_zero]
    rfl
  · rw [node_mk, noPending]
    exact zero_le _
  · rw [node_mk, node_mk, noPending, zero_add]
    exact (le_add_right _ _).trans left.le
  · have balanced : (node.release item).1.Balanced (mk (node.release item).1 queues children).held :=
      exact.balanced.step counts received held entered
    have stored : (node.release item).1.peeked -> (node.release item).1.requeued.isSome := by
      intro isPeeked
      rw [notPeeked] at isPeeked
      cases isPeeked
    exact QueueDisc.Exact.intro balanced stored exact.classesExact

end Effect

/-! ## Any call -/

/-- What is shown of a call. -/
def Sound : QueueCall -> QueueDisc -> QueueDisc -> List QueueEvent -> Prop
  | .discipline start hand, disc, after, events =>
    QueueDisc.ClassesExact disc.classes -> Moves start hand disc after events
  | call, disc, after, events => disc.Exact -> Effect call disc after events

theorem Sound.effect {call : QueueCall} {start between : QueueHand} {disc after : QueueDisc} {events : List QueueEvent}
    (sound : Sound call disc after events) (hands : call.Hands start between) (exact : disc.Exact) :
    Effect call disc after events := by
  cases hands <;> exact sound exact

section Steps

variable {node childNode : QueueNode} {queues before others : List (List QueueItem)}
    {children front back : List QueueDisc}
  {head tail : List QueueItem} {item : QueueItem} {taken : Multiset QueueItem} {fresh : Option QueueItem}
  {call : QueueCall} {start between : QueueHand} {child child' : QueueDisc} {reports : List QueueEvent}

section

variable (classes : QueueDisc.ClassesExact children)
include classes

theorem enqueueInternal_moves :
    Moves ⟨some item, taken⟩ ⟨none, taken⟩ (.mk node (before ++ (head ++ tail) :: others) children)
      (.mk (node.packetEnqueued item).1 (before ++ (head ++ item :: tail) :: others) children)
      (node.packetEnqueued item).2 := by
  apply Moves.of_relays (QueueNode.packetEnqueued_relays node item) classes
  · rw [inside_insert]
    abel
  · rw [inside_insert]
    abel
  · rfl

theorem dropBeforeEnqueue_moves :
    Moves ⟨some item, taken⟩ ⟨none, taken⟩ (.mk node queues children)
      (.mk (node.dropBeforeEnqueue item).1 queues children)
      (node.dropBeforeEnqueue item).2 :=
  Moves.of_relays (QueueNode.dropBeforeEnqueue_relays node item) classes rfl rfl rfl

theorem dequeueInternal_moves :
    Moves ⟨fresh, taken⟩ ⟨fresh, item ::ₘ taken⟩ (.mk node (before ++ (head ++ item :: tail) :: others) children)
      (.mk (node.packetDequeued item).1 (before ++ (head ++ tail) :: others) children)
        (node.packetDequeued item).2 := by
  apply Moves.of_relays (QueueNode.packetDequeued_relays node item) classes
  · rw [inside_insert]
    simp only [reported_singleton, dequeued, toList_some, coe_singleton]
    abel
  · rw [inside_insert, ← singleton_add]
    simp only
    abel
  · exact (zero_add _).symm

theorem dropAfterDequeue_moves :
    Moves ⟨fresh, item ::ₘ taken⟩ ⟨fresh, taken⟩ (.mk node queues children)
      (.mk (node.dropAfterDequeue item).1 queues children)
      (node.dropAfterDequeue item).2 := by
  apply Moves.of_relays (QueueNode.dropAfterDequeue_relays node item) classes
  · rfl
  · rw [← singleton_add]
    simp only [reported_singleton, droppedAfter, toList_some, coe_singleton]
    abel
  · exact (zero_add _).symm

theorem mark_moves (hand : QueueHand) :
    Moves hand hand (.mk node queues children) (.mk (node.mark item).1 queues children) (node.mark item).2 :=
  Moves.of_relays (QueueNode.mark_relays node item) classes rfl rfl (zero_add _).symm

end

/-- A class has moved packets, and nothing of it is left waiting. -/
theorem reports_moves (classes : QueueDisc.ClassesExact (front ++ child :: back)) (isExact : child'.Exact)
    (noPending : child'.node.pending = 0)
    (moved : child.held + reported enqueued reports = child'.held + reported dequeued reports)
    (left : start.taken + reported dequeued reports = between.taken + reported droppedAfter reports)
    (entered : start.waiting = reported enqueued reports + reported droppedBefore reports + between.waiting) :
    Moves start between (.mk node queues (front ++ child :: back))
      (.mk (node.notifyAll reports).1 queues (front ++ child' :: back)) (node.notifyAll reports).2 := by
  apply Moves.of_relays (QueueNode.notifyAll_relays reports node) (classes.replace isExact noPending) _ _ entered
  · rw [inside_replace, inside_replace, add_right_comm, moved]
    abel
  · rw [inside_replace, inside_replace]
    ext item
    have inMoved := congrArg (Multiset.count item) moved
    have inLeft := congrArg (Multiset.count item) left
    simp only [Multiset.count_add] at inMoved inLeft ⊢
    omega

theorem callChild_moves (node : QueueNode) (queues : List (List QueueItem))
    (classes : QueueDisc.ClassesExact (front ++ child :: back)) (hands : call.Hands start between)
    (effect : Effect call child child' reports) :
    Moves start between (.mk node queues (front ++ child :: back))
      (.mk (node.notifyAll reports).1 queues (front ++ child' :: back)) (node.notifyAll reports).2 := by
  have noPending : child'.node.pending = 0 := by
    have below := effect.pending
    rw [classes.inner.2] at below
    exact le_zero.mp below
  have left := effect.left
  rw [classes.inner.2, noPending, zero_add] at left
  apply reports_moves classes effect.exact noPending effect.moved
  · rw [hands.taken, left]
    abel
  · rw [hands.waiting, effect.entered]

theorem pull_moves {inner : List QueueDisc} (node : QueueNode) (queues : List (List QueueItem))
    (classes : QueueDisc.ClassesExact
      (front ++ .mk childNode (before ++ (head ++ item :: tail) :: others) inner :: back))
    (notPeeked : childNode.peeked = false) :
    Moves ⟨fresh, taken⟩ ⟨fresh, item ::ₘ taken⟩
      (.mk node queues (front ++ .mk childNode (before ++ (head ++ item :: tail) :: others) inner :: back))
      (.mk (node.notifyAll (childNode.packetDequeued item).2).1 queues
        (front ++ .mk (childNode.packetDequeued item).1 (before ++ (head ++ tail) :: others) inner :: back))
      (node.notifyAll (childNode.packetDequeued item).2).2 := by
  have moves : Moves ⟨none, 0⟩ ⟨none, item ::ₘ 0⟩ (.mk childNode (before ++ (head ++ item :: tail) :: others) inner)
      (.mk (childNode.packetDequeued item).1 (before ++ (head ++ tail) :: others) inner)
      (childNode.packetDequeued item).2 := dequeueInternal_moves classes.inner.1.classesExact
  have hands : (QueueCall.dequeue (some item)).Hands ⟨none, 0⟩ ⟨none, item ::ₘ 0⟩ := .dequeue
  have uncounted : uncounted ⟨none, item ::ₘ 0⟩ childNode = 0 := by
    rw [uncounted, notPeeked]
    rfl
  exact callChild_moves node queues classes (singleton_add item taken ▸ .dequeue)
    (moves.effect classes.inner.1 hands rfl uncounted moves.counts rfl rfl classes.inner.1.stored (add_zero _).symm)

end Steps

theorem Performs.sound {call : QueueCall} {disc after : QueueDisc} {events : List QueueEvent}
    (performs : Performs call disc after events) : Sound call disc after events := by
  induction performs with
  | enqueue doEnqueue ih =>
    intro exact
    exact enqueue_effect exact (ih exact.classesExact)
  | dequeueRequeued isRequeued => exact fun exact => release_effect exact isRequeued
  | dequeue noRequeued doDequeue ih =>
    intro exact
    exact dequeue_effect exact noRequeued (ih exact.classesExact)
  | peekRequeued isRequeued => exact fun exact => peekRequeued_effect exact
  | peek noRequeued doDequeue ih =>
    intro exact
    exact peek_effect exact noRequeued (ih exact.classesExact)
  | doPeek doPeek isHeld ih =>
    intro exact
    exact doPeek_effect exact (ih exact.classesExact)
  | stop => exact fun classes => Moves.refl classes
  | enqueueInternal rest ih =>
    intro classes
    exact (enqueueInternal_moves classes).andThen ih
  | dropBeforeEnqueue rest ih =>
    intro classes
    exact (dropBeforeEnqueue_moves classes).andThen ih
  | dequeueInternal rest ih =>
    intro classes
    exact (dequeueInternal_moves classes).andThen ih
  | dropAfterDequeue rest ih =>
    intro classes
    exact (dropAfterDequeue_moves classes).andThen ih
  | mark rest ih =>
    intro classes
    exact (mark_moves classes _).andThen ih
  | callChild hands calls rest called ih =>
    intro classes
    exact (callChild_moves _ _ classes hands (called.effect hands classes.inner.1)).andThen ih
  | pull notPeeked rest ih =>
    intro classes
    exact (pull_moves _ _ classes notPeeked).andThen ih

end Ns3.TrafficControl
