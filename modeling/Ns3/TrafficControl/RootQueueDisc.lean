import Ns3.Semantics.Transitions
import Ns3.TrafficControl.Accounting

/-!
# Root queue discs

The queue disc that the traffic control layer hands packets to, and that sends them to the device.
It may be the child of one that wakes its children and does nothing else.
-/

namespace Ns3.TrafficControl

open Semantics QueueEvent Multiset QueueDisc

structure NetDeviceQueueInterface where
  nTxQueues : Nat
  isStopped : Nat -> Bool

/-- Whether the transmission queue of the packet is stopped, if the device has any. -/
def stops (device : Option NetDeviceQueueInterface) (item : QueueItem) : Bool :=
  device.any fun interface => interface.isStopped item.txQueueIndex

/-- Whether a queue disc is asked for a packet: one that has several queues to choose from is always
asked. -/
def asksForPacket (device : Option NetDeviceQueueInterface) : Bool :=
  device.all fun interface => decide (1 < interface.nTxQueues) || !interface.isStopped 0

/-- A queue disc, and what has become of the packets given to it. -/
structure RootQueueDisc where
  disc : QueueDisc
  /-- How many packets there have been so far. -/
  created : Nat := 0
  arrived : Multiset QueueItem := 0
  /-- What it has reported as enqueued, as dropped before and as dropped after. -/
  accepted : Multiset QueueItem := 0
  refused : Multiset QueueItem := 0
  dropped : Multiset QueueItem := 0
  /-- What `Dequeue` has returned to others. -/
  taken : Multiset QueueItem := 0
  /-- What the send callback has been given. -/
  sent : Multiset QueueItem := 0
  /-- The calls of `AddHeader`. -/
  headed : Multiset QueueItem := 0

namespace QueueDisc

variable {disc : QueueDisc} {item : QueueItem}

theorem pending_of_none (noRequeued : disc.node.requeued = none) : disc.node.pending = 0 := by
  rw [QueueNode.pending, noRequeued]
  exact ite_self 0

theorem Exact.notPeeked (exact : disc.Exact) (noRequeued : disc.node.requeued = none) : disc.node.peeked = false := by
  cases disc
  exact notPeeked_of_exact exact noRequeued

theorem stored_le_held (isPeeked : disc.node.peeked = true) (isRequeued : disc.node.requeued = some item) :
    1 ≤ disc.held.count item := by
  obtain ⟨node, queues, children⟩ := disc
  rw [node_mk] at isPeeked isRequeued
  have stored : node.stored.count item = 1 := by
    simp [QueueNode.stored, isPeeked, isRequeued]
  rw [held_mk, count_add, stored]
  exact Nat.le_add_right 1 _

theorem requeue_held (exact : disc.Exact) (noRequeued : disc.node.requeued = none) :
    (disc.requeue item).held = disc.held := by
  have notPeeked := exact.notPeeked noRequeued
  obtain ⟨node, queues, children⟩ := disc
  rw [node_mk] at notPeeked
  rw [requeue, held_mk, held_mk]
  simp [QueueNode.stored, QueueNode.requeue, notPeeked]

theorem requeue_pending (exact : disc.Exact) (noRequeued : disc.node.requeued = none) :
    (disc.requeue item).node.pending = {item} := by
  have notPeeked := exact.notPeeked noRequeued
  obtain ⟨node, queues, children⟩ := disc
  rw [node_mk] at notPeeked
  simp [requeue, QueueNode.pending, QueueNode.requeue, notPeeked]

theorem requeue_exact (exact : disc.Exact) (noRequeued : disc.node.requeued = none) : (disc.requeue item).Exact := by
  have held : (disc.requeue item).held = disc.held := requeue_held exact noRequeued
  obtain ⟨node, queues, children⟩ := disc
  obtain ⟨received, current, counts⟩ := exact.balanced
  have balanced : (node.requeue item).Balanced (mk (node.requeue item) queues children).held :=
    ⟨received, current, counts.trans (congrArg countOf held.symm)⟩
  have stored : (node.requeue item).peeked -> (node.requeue item).requeued.isSome := fun _ => rfl
  exact Exact.intro balanced stored exact.classesExact

end QueueDisc

namespace RootQueueDisc

variable (root : RootQueueDisc)

def report (disc : QueueDisc) (events : List QueueEvent) : RootQueueDisc :=
  { root with
    disc
    accepted := root.accepted + reported enqueued events
    refused := root.refused + reported droppedBefore events
    dropped := root.dropped + reported droppedAfter events }

/-- `AddHeader` of each of them. -/
def addHeaders (items : Multiset QueueItem) : RootQueueDisc :=
  { root with headed := root.headed + items }

/-- `DequeuePacket`. Only a packet that is dequeued here gets its header here. -/
inductive DequeuesPacket (device : Option NetDeviceQueueInterface) (root : RootQueueDisc) :
    Option QueueItem -> RootQueueDisc -> List QueueEvent -> Prop where
  | requeued {item} (isRequeued : root.disc.node.requeued = some item) (open' : stops device item = false) :
      DequeuesPacket device root (some item) (root.report (root.disc.release item).1 (root.disc.release item).2)
        (root.disc.release item).2
  | stopped {item} (isRequeued : root.disc.node.requeued = some item) (isStopped : stops device item = true) :
      DequeuesPacket device root none root []
  | dequeued {result after events} (noRequeued : root.disc.node.requeued = none) (asks : asksForPacket device = true)
      (dequeues : Performs (.dequeue result) root.disc after events) :
      DequeuesPacket device root result ((root.report after events).addHeaders result.toList) events
  | notAsked (noRequeued : root.disc.node.requeued = none) (asks : asksForPacket device = false) :
      DequeuesPacket device root none root []

def transmit (device : Option NetDeviceQueueInterface) (root : RootQueueDisc) (item : QueueItem) : RootQueueDisc :=
  if stops device item then { root with disc := root.disc.requeue item }
  else { root with sent := {item} + root.sent }

/-- The rest of `Restart`. -/
def transmitResult (device : Option NetDeviceQueueInterface) (root : RootQueueDisc) : Option QueueItem -> RootQueueDisc
  | none => root
  | some item => root.transmit device item

inductive Action where
  /-- A new packet is handed to `Enqueue`. -/
  | enqueue (size : UInt32) (txQueueIndex : Nat) (markable : Bool)
  | dequeue
  | peek
  /-- One round of the loop in `Run`; others may call in from the send callback. -/
  | restart (device : Option NetDeviceQueueInterface)

inductive Steps (root : RootQueueDisc) : Action -> RootQueueDisc -> List QueueEvent -> Prop where
  | enqueue {size txQueueIndex markable after events}
      (enqueues : Performs (.enqueue ⟨root.created, size, txQueueIndex, markable⟩) root.disc after events) :
      Steps root (.enqueue size txQueueIndex markable) { root.report after events with
          created := root.created + 1
          arrived := {⟨root.created, size, txQueueIndex, markable⟩} + root.arrived }
        events
  | dequeue {result after events} (dequeues : Performs (.dequeue result) root.disc after events) :
      Steps root .dequeue { root.report after events with
        taken := (result.toList : Multiset QueueItem) + root.taken } events
  | peek {result after events} (peeks : Performs (.peek result) root.disc after events) :
      Steps root .peek (root.report after events) events
  | restart {device result between events} (dequeues : DequeuesPacket device root result between events) :
      Steps root (.restart device) (between.transmitResult device result) events

/-- A packet that only a peek has taken out goes to the device. -/
def sendsPeeked : Action -> Bool
  | .restart device => root.disc.node.peeked && root.disc.node.requeued.any fun item => !stops device item
  | _ => false

/-- Nothing has happened yet. -/
def IsNew : Prop :=
  root.disc.Initial ∧ root = { disc := root.disc }

/-- Where the packets are while `hand` is on its way to the device or to a caller. -/
structure Ledger (root : RootQueueDisc) (hand : Multiset QueueItem) : Prop where
  exact : root.disc.Exact
  accepted : root.accepted = root.disc.held + root.disc.node.pending + hand + root.sent + root.taken + root.dropped
  totalEnqueued : root.disc.node.totalEnqueued = countOf root.accepted
  totalDroppedBeforeEnqueue : root.disc.node.totalDroppedBeforeEnqueue = countOf root.refused
  totalDroppedAfterDequeue : root.disc.node.totalDroppedAfterDequeue = countOf root.dropped
  headed : root.headed ≤ root.disc.node.pending + hand + root.sent + root.taken
  pending : root.disc.node.pending ≤ root.headed

structure Kept (root : RootQueueDisc) : Prop where
  ledger : root.Ledger 0
  arrived : root.arrived = root.accepted + root.refused
  fresh : ∀ item ∈ root.arrived, item.uid < root.created
  distinct : root.arrived.Nodup

variable {root between : RootQueueDisc} {call : QueueCall} {after : QueueDisc} {events : List QueueEvent}
  {hand : Multiset QueueItem} {item : QueueItem} {device : Option NetDeviceQueueInterface}

theorem Ledger.report (ledger : root.Ledger 0) (effect : Effect call root.disc after events)
    {headers : Multiset QueueItem}
    (isHeaded : root.disc.node.pending + headers ≤ after.node.pending + call.leaving) :
    ((root.report after events).addHeaders headers).Ledger call.leaving where
  exact := effect.exact
  accepted := by
    ext item
    have before := congrArg (count item) ledger.accepted
    have moved := congrArg (count item) effect.moved
    have left := congrArg (count item) effect.left
    simp only [count_add, count_zero] at before moved left
    simp only [RootQueueDisc.report, addHeaders, count_add]
    omega
  totalEnqueued :=
    (effect.counts.totalEnqueued.trans (congrArg (· + _) ledger.totalEnqueued)).trans (countOf_add _ _).symm
  totalDroppedBeforeEnqueue :=
    (effect.counts.totalDroppedBeforeEnqueue.trans (congrArg (· + _) ledger.totalDroppedBeforeEnqueue)).trans
      (countOf_add _ _).symm
  totalDroppedAfterDequeue :=
    (effect.counts.totalDroppedAfterDequeue.trans (congrArg (· + _) ledger.totalDroppedAfterDequeue)).trans
      (countOf_add _ _).symm
  headed := by
    apply le_iff_count.mpr
    intro item
    have before := le_iff_count.mp ledger.headed item
    have more := le_iff_count.mp isHeaded item
    simp only [count_add, count_zero] at before more
    simp only [RootQueueDisc.report, addHeaders, count_add]
    omega
  pending := (effect.pending.trans ledger.pending).trans (le_add_right _ _)

theorem addHeaders_zero (root : RootQueueDisc) : root.addHeaders 0 = root := by
  rw [addHeaders, add_zero]

theorem Ledger.report_plain (ledger : root.Ledger 0) (effect : Effect call root.disc after events) :
    (root.report after events).Ledger call.leaving := by
  have waits : root.disc.node.pending + 0 ≤ after.node.pending + call.leaving := (add_zero _).le.trans effect.waits
  have reports := ledger.report effect waits
  rwa [addHeaders_zero] at reports

/-- What is in hand is given away. -/
theorem Ledger.settle {items sent taken : Multiset QueueItem} (ledger : root.Ledger items)
    (settles : items + root.sent + root.taken = sent + taken) :
    { root with sent := sent, taken := taken }.Ledger 0 where
  exact := ledger.exact
  accepted := by
    rw [ledger.accepted]
    dsimp only
    rw [add_zero, add_assoc _ sent, ← settles]
    abel
  totalEnqueued := ledger.totalEnqueued
  totalDroppedBeforeEnqueue := ledger.totalDroppedBeforeEnqueue
  totalDroppedAfterDequeue := ledger.totalDroppedAfterDequeue
  headed := by
    apply ledger.headed.trans
    apply le_of_eq
    dsimp only
    rw [add_zero, add_assoc _ sent, ← settles]
    abel
  pending := ledger.pending

theorem Ledger.give {items : Multiset QueueItem} (ledger : root.Ledger items) :
    { root with taken := items + root.taken }.Ledger 0 :=
  ledger.settle (by abel)

theorem Ledger.send (ledger : root.Ledger {item}) : { root with sent := {item} + root.sent }.Ledger 0 :=
  ledger.settle rfl

theorem Ledger.requeue (ledger : root.Ledger {item}) (noRequeued : root.disc.node.requeued = none)
    (isHeaded : {item} ≤ root.headed) : { root with disc := root.disc.requeue item }.Ledger 0 := by
  have pending : (root.disc.requeue item).node.pending = {item} := requeue_pending ledger.exact noRequeued
  have counters : (root.disc.requeue item).node.totalEnqueued = root.disc.node.totalEnqueued ∧
      (root.disc.requeue item).node.totalDroppedBeforeEnqueue = root.disc.node.totalDroppedBeforeEnqueue ∧
      (root.disc.requeue item).node.totalDroppedAfterDequeue = root.disc.node.totalDroppedAfterDequeue := by
    cases root.disc
    exact ⟨rfl, rfl, rfl⟩
  constructor
  · exact requeue_exact ledger.exact noRequeued
  · dsimp only
    rw [ledger.accepted, pending, requeue_held ledger.exact noRequeued, pending_of_none noRequeued,
      add_zero, add_zero]
  · exact counters.1.trans ledger.totalEnqueued
  · exact counters.2.1.trans ledger.totalDroppedBeforeEnqueue
  · exact counters.2.2.trans ledger.totalDroppedAfterDequeue
  · have before := ledger.headed
    rwa [pending, add_zero, ← zero_add ({item} : Multiset QueueItem), ← pending_of_none noRequeued]
  · dsimp only
    rw [pending]
    exact isHeaded

variable {result : Option QueueItem}

theorem requeued_of_dequeue {disc : QueueDisc} (exact : disc.Exact)
    (noRequeued : disc.node.requeued = none) (dequeues : Performs (.dequeue result) disc after events) :
    after.node.requeued = none := by
  cases dequeues with
  | dequeueRequeued isRequeued => exact absurd (noRequeued.symm.trans isRequeued) (Option.some_ne_none _).symm
  | dequeue noRequeued doDequeue =>
    have moves := doDequeue.sound exact.classesExact
    exact moves.same.requeued.trans noRequeued

/-- How the queue disc and its reports change. -/
structure Moved (root next : RootQueueDisc) (events : List QueueEvent) (entering : Multiset QueueItem) : Prop where
  moved : root.disc.held + reported enqueued events = next.disc.held + reported dequeued events
  entered : reported enqueued events + reported droppedBefore events = entering
  accepted : next.accepted = root.accepted + reported enqueued events
  refused : next.refused = root.refused + reported droppedBefore events
  arrived : next.arrived = entering + root.arrived

theorem Moved.refl (root : RootQueueDisc) : root.Moved root [] 0 where
  moved := rfl
  entered := rfl
  accepted := (add_zero _).symm
  refused := (add_zero _).symm
  arrived := (zero_add _).symm

theorem Moved.report (effect : Effect call root.disc after events) (nothing : call.entering = 0) :
    root.Moved (root.report after events) events 0 :=
  ⟨effect.moved, effect.entered.trans nothing, rfl, rfl, (zero_add _).symm⟩

/-- What `DequeuePacket` leaves: only a packet with a header can find its queue stopped. -/
structure DequeuedPacket (device : Option NetDeviceQueueInterface) (root between : RootQueueDisc)
    (result : Option QueueItem)
    (events : List QueueEvent) : Prop where
  ledger : between.Ledger result.toList
  moved : root.Moved between events 0
  created : between.created = root.created
  isHeaded : ∀ item ∈ result, stops device item = true -> between.disc.node.requeued = none ∧ {item} ≤ between.headed

theorem DequeuesPacket.dequeued_packet (ledger : root.Ledger 0)
    (dequeues : root.DequeuesPacket device result between events) :
    DequeuedPacket device root between result events := by
  cases dequeues with
  | @requeued item isRequeued notStopped =>
    have effect := release_effect ledger.exact isRequeued
    refine ⟨ledger.report_plain effect, Moved.report effect rfl, rfl, ?_⟩
    rintro other ⟨⟩ isStopped
    exact absurd (notStopped.symm.trans isStopped) Bool.false_ne_true
  | stopped isRequeued isStopped =>
      exact ⟨ledger, Moved.refl root, rfl, fun item none => absurd none (Option.not_mem_none item)⟩
  | notAsked noRequeued asks =>
      exact ⟨ledger, Moved.refl root, rfl, fun item none => absurd none (Option.not_mem_none item)⟩
  | @dequeued _ after _ noRequeued asks dequeues =>
    have effect : Effect (.dequeue result) root.disc after events := dequeues.sound ledger.exact
    have isHeaded : root.disc.node.pending + (result.toList : Multiset QueueItem) ≤
      after.node.pending + result.toList := by
      rw [pending_of_none noRequeued]
      exact le_add_left _ _
    refine ⟨ledger.report effect isHeaded, ⟨effect.moved, effect.entered, rfl, rfl, (zero_add _).symm⟩, rfl, ?_⟩
    rintro item ⟨⟩ isStopped
    exact ⟨requeued_of_dequeue ledger.exact noRequeued dequeues, le_add_left _ _⟩

theorem requeue_held_sent (between : RootQueueDisc) (item : QueueItem) (exact : between.disc.Exact)
    (noRequeued : between.disc.node.requeued = none) (moved : root.Moved between events 0) :
    root.Moved { between with disc := between.disc.requeue item } events 0 := by
  refine ⟨?_, moved.entered, moved.accepted, moved.refused, moved.arrived⟩
  rw [moved.moved, requeue_held exact noRequeued]

theorem DequeuedPacket.transmitResult (packet : DequeuedPacket device root between result events) :
    (between.transmitResult device result).Ledger 0 ∧ root.Moved (between.transmitResult device result) events 0 ∧
      (between.transmitResult device result).created = root.created := by
  cases result with
  | none => exact ⟨packet.ledger, packet.moved, packet.created⟩
  | some item =>
    have ledger : between.Ledger {item} := packet.ledger
    change (between.transmit device item).Ledger 0 ∧ root.Moved (between.transmit device item) events 0 ∧
      (between.transmit device item).created = root.created
    unfold transmit
    cases isStopped : stops device item with
    | true =>
      obtain ⟨noRequeued, isHeaded⟩ := packet.isHeaded item rfl isStopped
      exact ⟨ledger.requeue noRequeued isHeaded, requeue_held_sent between item ledger.exact noRequeued packet.moved,
        packet.created⟩
    | false =>
      obtain ⟨moved, entered, accepted, refused, arrived⟩ := packet.moved
      exact ⟨ledger.send, ⟨moved, entered, accepted, refused, arrived⟩, packet.created⟩

/-- What the action hands to `Enqueue`. -/
def Action.arrival (root : RootQueueDisc) : Action -> Multiset QueueItem
  | .enqueue size txQueueIndex markable => {⟨root.created, size, txQueueIndex, markable⟩}
  | _ => 0

variable {next : RootQueueDisc}

theorem Kept.of_moved (kept : root.Kept) (action : Action) (ledger : next.Ledger 0)
    (moved : root.Moved next events (action.arrival root))
    (created : next.created = root.created + (action.arrival root).card) : next.Kept := by
  have isFresh : ∀ item ∈ action.arrival root, item.uid = root.created := by
    intro item mem
    cases action with
    | enqueue => rw [mem_singleton.mp mem]
    | _ => exact absurd mem (notMem_zero item)
  have distinct : (action.arrival root).Nodup := by
    cases action with
    | enqueue => exact nodup_singleton _
    | _ => exact nodup_zero
  refine ⟨ledger, ?_, ?_, ?_⟩
  · rw [moved.arrived, moved.accepted, moved.refused, kept.arrived, ← moved.entered]
    abel
  · intro item mem
    rw [moved.arrived] at mem
    rw [created]
    rcases mem_add.mp mem with arrives | before
    · rw [isFresh item arrives]
      exact Nat.lt_add_of_pos_right (card_pos_iff_exists_mem.mpr ⟨item, arrives⟩)
    · exact Nat.lt_add_right _ (kept.fresh item before)
  · rw [moved.arrived]
    apply Multiset.Nodup.add_iff distinct kept.distinct |>.mpr
    apply disjoint_left.mpr
    intro item arrives before
    exact Nat.ne_of_lt (kept.fresh item before) (isFresh item arrives)

theorem Steps.kept {action : Action} (kept : root.Kept) (steps : root.Steps action next events) :
    next.Kept ∧ root.Moved next events (action.arrival root) := by
  cases steps with
  | @enqueue size txQueueIndex markable after events enqueues =>
    have effect : Effect _ root.disc after events := enqueues.sound kept.ledger.exact
    have reports : (root.report after events).Ledger 0 := kept.ledger.report_plain effect
    obtain ⟨exact, accepted, enqueued, refused, dropped, headed, pending⟩ := reports
    have moved : root.Moved { root.report after events with
        created := root.created + 1
        arrived := {⟨root.created, size, txQueueIndex, markable⟩} + root.arrived } events
        ((Action.enqueue size txQueueIndex markable).arrival root) := ⟨effect.moved, effect.entered, rfl, rfl, rfl⟩
    exact ⟨kept.of_moved _ ⟨exact, accepted, enqueued, refused, dropped, headed, pending⟩ moved rfl, moved⟩
  | @dequeue result after events dequeues =>
    have effect : Effect (.dequeue result) root.disc after events := dequeues.sound kept.ledger.exact
    have moved : root.Moved { root.report after events with taken := (result.toList : Multiset QueueItem) + root.taken }
        events (Action.dequeue.arrival root) := ⟨effect.moved, effect.entered, rfl, rfl, (zero_add _).symm⟩
    exact ⟨kept.of_moved .dequeue (kept.ledger.report_plain effect).give moved rfl, moved⟩
  | @peek result after events peeks =>
    have effect : Effect (.peek result) root.disc after events := peeks.sound kept.ledger.exact
    have moved : root.Moved (root.report after events) events (Action.peek.arrival root) :=
      ⟨effect.moved, effect.entered, rfl, rfl, (zero_add _).symm⟩
    exact ⟨kept.of_moved .peek (kept.ledger.report_plain effect) moved rfl, moved⟩
  | @restart device _ _ _ dequeues =>
    obtain ⟨ledger, moved, created⟩ := (dequeues.dequeued_packet kept.ledger).transmitResult
    exact ⟨kept.of_moved (.restart device) ledger moved created, moved⟩

/-- Every packet sent has had its header added exactly once. -/
def HeadersAdded (root : RootQueueDisc) : Prop :=
  ∀ item ∈ root.sent, root.headed.count item = 1

theorem Ledger.count_le (ledger : root.Ledger hand) (distinct : root.accepted.Nodup) (item : QueueItem) :
    root.disc.held.count item + root.disc.node.pending.count item + hand.count item + root.sent.count item +
      root.taken.count item + root.dropped.count item ≤ 1 := by
  have once := nodup_iff_count_le_one.mp distinct item
  rw [ledger.accepted] at once
  simpa only [count_add] using once

theorem Ledger.headed_le (ledger : root.Ledger hand) (item : QueueItem) : root.headed.count item ≤
    root.disc.node.pending.count item + hand.count item + root.sent.count item + root.taken.count item := by
  have headed := le_iff_count.mp ledger.headed item
  simpa only [count_add] using headed

theorem Kept.accepted_nodup (kept : root.Kept) : root.accepted.Nodup := by
  have distinct := kept.distinct
  rw [kept.arrived] at distinct
  exact (nodup_add.mp distinct).1

/-- The packet that waits has a header unless a peek has stored it. -/
theorem Kept.headed_iff (kept : root.Kept) (isRequeued : root.disc.node.requeued = some item) :
    root.headed.count item = 1 ↔ root.disc.node.peeked = false := by
  have once := kept.ledger.count_le kept.accepted_nodup item
  have headed := kept.ledger.headed_le item
  have pending := le_iff_count.mp kept.ledger.pending item
  cases isPeeked : root.disc.node.peeked with
  | false =>
    have waits : root.disc.node.pending.count item = 1 := by
      simp [QueueNode.pending, isPeeked, isRequeued]
    exact iff_of_true (by omega) rfl
  | true =>
    have stored := stored_le_held isPeeked isRequeued
    exact iff_of_false (by omega) Bool.false_ne_true.symm

theorem headersAdded_send (root : RootQueueDisc) (item : QueueItem) :
    { root with sent := {item} + root.sent }.HeadersAdded ↔ root.headed.count item = 1 ∧ root.HeadersAdded := by
  constructor
  · exact fun all => ⟨all item (mem_add.mpr (.inl (mem_singleton_self item))),
      fun other mem => all other (mem_add.mpr (.inr mem))⟩
  · rintro ⟨first, others⟩ other mem
    rcases mem_add.mp mem with isItem | inSent
    · rw [mem_singleton.mp isItem]
      exact first
    · exact others other inSent

/-- A new header is not one of a packet that has been sent. -/
theorem headersAdded_addHeaders (root : RootQueueDisc) (item : QueueItem) (notSent : item ∉ root.sent) :
    (root.addHeaders {item}).HeadersAdded ↔ root.HeadersAdded := by
  apply forall₂_congr
  intro other mem
  have ne : other ≠ item := fun same => notSent (same ▸ mem)
  change (root.headed + {item}).count other = 1 ↔ root.headed.count other = 1
  rw [count_add, count_singleton, if_neg ne, add_zero]

theorem headersAdded_dequeued (kept : root.Kept) (noRequeued : root.disc.node.requeued = none)
    (asks : asksForPacket device = true) (dequeues : Performs (.dequeue (some item)) root.disc after events) :
    (((root.report after events).addHeaders {item}).transmit device item).HeadersAdded ↔ root.HeadersAdded := by
  have packet := (DequeuesPacket.dequeued noRequeued asks dequeues).dequeued_packet kept.ledger
  -- nothing has been accepted meanwhile
  have accepted : root.accepted + reported enqueued events = root.accepted := by
    have nothing := packet.moved.entered
    rw [le_zero.mp ((le_add_right _ _).trans nothing.le), add_zero]
  have distinct : (root.accepted + reported enqueued events).Nodup := by
    rw [accepted]
    exact kept.accepted_nodup
  have once := packet.ledger.count_le distinct item
  have isHand : count item ((some item).toList : Multiset QueueItem) = 1 := by simp
  change _ + _ + _ + root.sent.count item + root.taken.count item + _ ≤ 1 at once
  have notSent : item ∉ root.sent := count_eq_zero.mp (by omega)
  unfold transmit
  split
  · exact headersAdded_addHeaders (root.report after events) item notSent
  · have headed := kept.ledger.headed_le item
    rw [pending_of_none noRequeued, count_zero] at headed
    apply (headersAdded_send _ item).trans
    have isHeaded : count item (root.headed + {item}) = 1 := by
      rw [count_add, count_singleton_self]
      omega
    apply (and_iff_right isHeaded).trans
    exact headersAdded_addHeaders (root.report after events) item notSent

theorem Steps.headersAdded_iff {action : Action} (kept : root.Kept) (steps : root.Steps action next events) :
    next.HeadersAdded ↔ root.HeadersAdded ∧ root.sendsPeeked action = false := by
  cases steps with
  | enqueue enqueues => exact (and_iff_left rfl).symm
  | dequeue dequeues => exact (and_iff_left rfl).symm
  | peek peeks => exact (and_iff_left rfl).symm
  | @restart device result between _ dequeues =>
    cases dequeues with
    | @requeued item isRequeued notStopped =>
      have sends :
        (root.report (root.disc.release item).1 (root.disc.release item).2).transmitResult device
        (some item) =
          { root.report (root.disc.release item).1 (root.disc.release item).2 with sent := {item} + root.sent } := by
        rw [transmitResult, transmit, notStopped]
        rfl
      have guard : root.sendsPeeked (.restart device) = root.disc.node.peeked := by
        simp [sendsPeeked, isRequeued, notStopped]
      rw [sends, guard, ← kept.headed_iff isRequeued]
      exact (headersAdded_send _ item).trans and_comm
    | stopped isRequeued isStopped =>
      have guarded : root.sendsPeeked (.restart device) = false := by
        simp [sendsPeeked, isRequeued, isStopped]
      exact (and_iff_left guarded).symm
    | notAsked noRequeued asks =>
      have guarded : root.sendsPeeked (.restart device) = false := by
        simp [sendsPeeked, noRequeued]
      exact (and_iff_left guarded).symm
    | @dequeued _ after _ noRequeued asks dequeues =>
      have guarded : root.sendsPeeked (.restart device) = false := by
        simp [sendsPeeked, noRequeued]
      rw [and_iff_left guarded]
      cases result with
      | none =>
        change ((root.report after events).addHeaders 0).HeadersAdded ↔ _
        rw [addHeaders_zero]
        exact Iff.rfl
      | some item => exact headersAdded_dequeued kept noRequeued asks dequeues

end RootQueueDisc

end Ns3.TrafficControl
