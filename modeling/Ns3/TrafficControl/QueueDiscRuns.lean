import Ns3.TrafficControl.RootQueueDisc

/-!
# Runs of the queue discs of a device

There is one root queue disc, or several of them under one that only hears what they report.
Whatever happens, the books are right as far as the counters go, and no packet is lost; what can go
wrong is the header of a packet that has been peeked at, what the parent should have received, and
counters of 32 bits that are too small for what is held.
-/

namespace Ns3.TrafficControl

open Semantics QueueEvent List Option QueueDisc
open scoped UInt32.CommRing UInt64.CommRing

/-- The bytes of some packets. -/
def bytesIn (items : Multiset QueueItem) : Nat :=
  (items.map fun item => item.size.toNat).sum

/-- Few enough packets and bytes for counters of 32 bits. -/
def FitsCounters (items : Multiset QueueItem) : Prop :=
  items.card < 2 ^ 32 ∧ bytesIn items < 2 ^ 32

/-- The books of a queue disc that holds `held`. The current counters are also compared with the
totals, as `Dequeue` asserts it: `m_nBytes` with a difference of 64 bits. -/
structure QueueNode.Books (node : QueueNode) (held : Multiset QueueItem) : Prop where
  received : node.totalReceived = node.totalEnqueued + node.totalDroppedBeforeEnqueue
  current : (node.current.1, node.current.2.toUInt64) = node.totalEnqueued - node.totalDequeued
  packets : node.current.1.toNat = held.card
  bytes : node.current.2.toNat = bytesIn held

variable {items others : Multiset QueueItem}

theorem bytesIn_add (items others : Multiset QueueItem) :
    bytesIn (items + others) = bytesIn items + bytesIn others := by
  rw [bytesIn, Multiset.map_add, Multiset.sum_add]
  rfl

theorem FitsCounters.mono (countable : FitsCounters items) (atMost : others ≤ items) : FitsCounters others := by
  obtain ⟨rest, rfl⟩ := Multiset.le_iff_exists_add.mp atMost
  obtain ⟨packets, bytes⟩ := countable
  rw [Multiset.card_add] at packets
  rw [bytesIn_add] at bytes
  exact ⟨by omega, by omega⟩

theorem toNat_countOf (items : Multiset QueueItem) :
    (countOf items).1.toNat = items.card % 2 ^ 32 ∧ (countOf items).2.toNat = bytesIn items % 2 ^ 64 := by
  induction items using Multiset.induction with
  | empty => exact ⟨rfl, rfl⟩
  | cons item items ih =>
    obtain ⟨packets, bytes⟩ := ih
    have single : bytesIn {item} = item.size.toNat := by simp [bytesIn]
    have one : (1 : UInt32).toNat = 1 := rfl
    rw [← Multiset.singleton_add, countOf_add, countOf_singleton, bytesIn_add, single, Multiset.card_add,
      Multiset.card_singleton]
    simp only [Prod.fst_add, Prod.snd_add, QueueItem.count, UInt32.toNat_add, UInt64.toNat_add, UInt32.toNat_toUInt64,
      packets, bytes, one]
    omega

theorem countOf_eq_zero_iff : countOf items = 0 ↔ 2 ^ 32 ∣ items.card ∧ 2 ^ 64 ∣ bytesIn items := by
  obtain ⟨packets, bytes⟩ := toNat_countOf items
  rw [Prod.ext_iff, ← UInt32.toNat_inj, ← UInt64.toNat_inj, packets, bytes]
  exact and_congr (Nat.dvd_iff_mod_eq_zero ..).symm (Nat.dvd_iff_mod_eq_zero ..).symm

/-- The current counters are right if they are large enough for what is held. -/
theorem counted_iff {node : QueueNode} (current : node.current = narrow (node.totalEnqueued - node.totalDequeued))
    (held : node.totalEnqueued - node.totalDequeued = countOf items) :
    ((node.current.1, node.current.2.toUInt64) = node.totalEnqueued - node.totalDequeued ∧
      node.current.1.toNat = items.card ∧ node.current.2.toNat = bytesIn items) ↔ FitsCounters items := by
  obtain ⟨packets, bytes⟩ := toNat_countOf items
  have isPackets : node.current.1.toNat = items.card % 2 ^ 32 := by
    rw [current, held]
    exact packets
  have isBytes : node.current.2.toNat = bytesIn items % 2 ^ 32 := by
    rw [current, held, narrow, UInt64.toNat_toUInt32, bytes, Nat.mod_mod_of_dvd _ (by decide)]
  constructor
  · rintro ⟨-, fewPackets, fewBytes⟩
    exact ⟨fewPackets ▸ node.current.1.toNat_lt, fewBytes ▸ node.current.2.toNat_lt⟩
  · rintro ⟨fewPackets, fewBytes⟩
    rw [Nat.mod_eq_of_lt fewPackets] at isPackets
    rw [Nat.mod_eq_of_lt fewBytes] at isBytes
    refine ⟨Prod.ext ?_ ?_, isPackets, isBytes⟩
    · rw [current]
      rfl
    · rw [← UInt64.toNat_inj, UInt32.toNat_toUInt64, isBytes, held, bytes, Nat.mod_eq_of_lt (by omega)]

structure QueueDiscs where
  /-- The queue disc that wakes its children, if the device has one. -/
  parent : Option QueueNode := none
  roots : List RootQueueDisc

namespace QueueDiscs

open RootQueueDisc

inductive Steps (discs : QueueDiscs) : Nat × Action -> QueueDiscs -> Prop where
  | intro {front root back action next events} (isRoots : discs.roots = front ++ root :: back)
      (steps : root.Steps action next events) :
      Steps discs (front.length, action)
        ⟨discs.parent.map fun node => (node.notifyAll events).1, front ++ next :: back⟩

def transitions : Transitions QueueDiscs (Nat × Action) where
  Initial discs := (∀ root ∈ discs.roots, root.IsNew) ∧
    (discs.parent = none ∧ discs.roots.length = 1 ∨ discs.parent = some {})
  Step discs action next := discs.Steps action next

/-- What the children of the parent hold. -/
def heldByRoots (roots : List RootQueueDisc) : Multiset QueueItem :=
  (roots.map fun root => root.disc.held).sum

def arrivedAtRoots (roots : List RootQueueDisc) : Multiset QueueItem :=
  (roots.map RootQueueDisc.arrived).sum

/-- The books are right at every level, every packet is in one place, and what has been sent has its
header. -/
structure Accounts (discs : QueueDiscs) : Prop where
  levels : ∀ root ∈ discs.roots, ∀ level ∈ root.disc.levels, level.node.Books level.held
  parent : ∀ node ∈ discs.parent, node.Books (heldByRoots discs.roots)
  dequeued : ∀ root ∈ discs.roots, root.disc.node.totalDequeued =
    countOf (root.disc.node.pending + root.sent + root.taken + root.dropped) ∧
      root.disc.node.totalDroppedAfterDequeue = countOf root.dropped
  distinct : ∀ root ∈ discs.roots, root.arrived.Nodup ∧ root.arrived = root.accepted + root.refused
  places : ∀ root ∈ discs.roots,
    root.accepted = root.disc.held + root.disc.node.pending + root.sent + root.taken + root.dropped
  headers : ∀ root ∈ discs.roots, root.HeadersAdded

/-- No packet that only a peek has taken out is sent. -/
def Meets (discs : QueueDiscs) (entry : Nat × Action) : Prop :=
  ∀ root ∈ discs.roots[entry.1]?, root.sendsPeeked entry.2 = false

/-- What is held can be counted, and a parent cannot tell from its totals that its children have
received packets: as a rule there are none. -/
structure Fits (discs : QueueDiscs) : Prop where
  roots : ∀ root ∈ discs.roots, FitsCounters root.disc.held
  parent : discs.parent.isSome -> FitsCounters (heldByRoots discs.roots) ∧
    2 ^ 32 ∣ (arrivedAtRoots discs.roots).card ∧ 2 ^ 64 ∣ bytesIn (arrivedAtRoots discs.roots)

variable {classes : List QueueDisc} {disc level : QueueDisc}

theorem heldByClasses_zero (nothing : ∀ child ∈ classes, child.held = 0) : heldByClasses classes = 0 := by
  induction classes with
  | nil => rw [heldByClasses]
  | cons child classes ih =>
    rw [heldByClasses_cons, nothing child mem_cons_self,
      ih fun child mem => nothing child (mem_cons_of_mem _ mem), add_zero]

theorem initial_spec (initial : disc.Initial) : disc.held = 0 ∧ disc.node = {} ∧ disc.Exact := by
  induction initial with
  | @mk queues classes noPackets initial ih =>
    have held : (QueueDisc.mk {} queues classes).held = 0 := by
      rw [QueueDisc.held_mk, heldByClasses_zero fun child mem => (ih child mem).1,
        flatten_eq_nil_iff.mpr noPackets]
      rfl
    refine ⟨held, rfl, .mk ⟨rfl, rfl, ?_⟩ ?_ ?_ ?_⟩
    · rw [held]
      rfl
    · exact fun isPeeked => absurd isPeeked Bool.false_ne_true
    · intro child mem
      rw [(ih child mem).2.1]
      rfl
    · exact fun child mem => (ih child mem).2.2

theorem kept_of_isNew {root : RootQueueDisc} (isNew : root.IsNew) : root.Kept ∧ root.disc.held = 0 ∧
    root.arrived = 0 := by
  obtain ⟨initial, isRoot⟩ := isNew
  obtain ⟨held, node, exact⟩ := initial_spec initial
  rw [isRoot]
  have noPending : root.disc.node.pending = 0 := by
    rw [node]
    rfl
  refine ⟨⟨⟨exact, ?_, ?_, ?_, ?_, ?_, ?_⟩, rfl, ?_, ?_⟩, held, rfl⟩
  · change 0 = root.disc.held + root.disc.node.pending + 0 + 0 + 0 + 0
    rw [held, noPending]
    rfl
  · change root.disc.node.totalEnqueued = countOf 0
    rw [node]
    rfl
  · change root.disc.node.totalDroppedBeforeEnqueue = countOf 0
    rw [node]
    rfl
  · change root.disc.node.totalDroppedAfterDequeue = countOf 0
    rw [node]
    rfl
  · exact Multiset.zero_le _
  · exact noPending.le
  · exact fun item mem => absurd mem (Multiset.notMem_zero item)
  · exact Multiset.nodup_zero

/-- What a parent knows of its children. -/
structure Hears (node : QueueNode) (roots : List RootQueueDisc) : Prop where
  notPeeked : node.peeked = false
  totalReceived : node.totalReceived = 0
  arrived : node.totalEnqueued + node.totalDroppedBeforeEnqueue = countOf (arrivedAtRoots roots)
  current : node.current = narrow (node.totalEnqueued - node.totalDequeued)
  held : node.totalEnqueued - node.totalDequeued = countOf (heldByRoots roots)

structure Inv (discs : QueueDiscs) : Prop where
  kept : ∀ root ∈ discs.roots, root.Kept
  hears : ∀ node ∈ discs.parent, Hears node discs.roots

/-- What each step keeps as long as it meets the condition. -/
def Holds (discs : QueueDiscs) : Prop :=
  ∀ root ∈ discs.roots, root.HeadersAdded

variable {discs next : QueueDiscs} {entry : Nat × Action} {front back : List RootQueueDisc} {root after : RootQueueDisc}
  {node : QueueNode} {events : List QueueEvent} {action : Action}

theorem heldByRoots_replace :
    heldByRoots (front ++ root :: back) = root.disc.held + (heldByRoots front + heldByRoots back) := by
  simp only [heldByRoots, map_append, map_cons, sum_append, sum_cons]
  abel

theorem arrivedAtRoots_replace :
    arrivedAtRoots (front ++ root :: back) = root.arrived + (arrivedAtRoots front + arrivedAtRoots back) := by
  simp only [arrivedAtRoots, map_append, map_cons, sum_append, sum_cons]
  abel

theorem Hears.step (hears : Hears node (front ++ root :: back))
    (moved : root.Moved after events (action.arrival root)) :
    Hears (node.notifyAll events).1 (front ++ after :: back) := by
  have relays := QueueNode.notifyAll_relays events node
  have dequeued := relays.dequeued
  rw [hears.notPeeked] at dequeued
  have counts := relays.counts
  refine ⟨relays.same.peeked.trans hears.notPeeked, relays.same.totalReceived.trans hears.totalReceived, ?_, ?_, ?_⟩
  · have arrived := hears.arrived
    rw [arrivedAtRoots_replace, countOf_add] at arrived
    rw [counts.totalEnqueued, counts.totalDroppedBeforeEnqueue, relays.enqueued, relays.droppedBefore,
      arrivedAtRoots_replace, moved.arrived, ← moved.entered, countOf_add, countOf_add, countOf_add, add_add_add_comm,
      arrived]
    abel
  · rw [counts.current, counts.totalEnqueued, counts.totalDequeued, hears.current, ← narrow_add, ← narrow_sub]
    congr 1
    abel
  · have held := hears.held
    have isMoved := congrArg countOf moved.moved
    rw [heldByRoots_replace, countOf_add] at held
    rw [countOf_add, countOf_add] at isMoved
    have isHeld : countOf after.disc.held = countOf root.disc.held + countOf (reported enqueued events) -
        countOf (reported QueueEvent.dequeued events) := eq_sub_of_add_eq isMoved.symm
    rw [counts.totalEnqueued, counts.totalDequeued, relays.enqueued, dequeued, heldByRoots_replace, countOf_add, isHeld,
      add_sub_add_comm, held]
    change _ + (_ - countOf (reported QueueEvent.dequeued events)) = _
    abel

theorem mem_replace {roots : List RootQueueDisc} (isRoots : roots = front ++ root :: back)
    {property : RootQueueDisc -> Prop} :
    (∀ other ∈ roots, property other) ↔
      (∀ other ∈ front, property other) ∧ property root ∧ ∀ other ∈ back, property other := by
  rw [isRoots, forall_mem_append, forall_mem_cons]

theorem Inv.step (inv : discs.Inv) (steps : discs.Steps entry next) : next.Inv := by
  cases steps with
  | @intro front root back action after events isRoots steps =>
    obtain ⟨inFront, isKept, inBack⟩ := (mem_replace isRoots).mp inv.kept
    obtain ⟨kept, moved⟩ := steps.kept isKept
    constructor
    · exact (mem_replace rfl).mpr ⟨inFront, kept, inBack⟩
    · intro node mem
      obtain ⟨before, isParent, rfl⟩ := map_eq_some_iff.mp mem
      have hears := inv.hears before isParent
      rw [isRoots] at hears
      exact hears.step moved

theorem Holds.step_iff (inv : discs.Inv) (steps : discs.Steps entry next) :
    next.Holds ↔ discs.Holds ∧ discs.Meets entry := by
  cases steps with
  | @intro front root back action after events isRoots steps =>
    obtain ⟨inFront, isKept, inBack⟩ := (mem_replace isRoots).mp inv.kept
    have isRoot : discs.roots[front.length]? = some root := by
      rw [isRoots, getElem?_append_right (Nat.le_refl _), Nat.sub_self]
      rfl
    rw [Holds, Holds, Meets, mem_replace rfl, mem_replace isRoots, steps.headersAdded_iff isKept, isRoot]
    simp only [mem_some_iff, forall_eq']
    tauto

theorem mem_levelsOfClasses (mem : level ∈ levelsOfClasses classes) : ∃ child ∈ classes, level ∈ child.levels := by
  induction classes with
  | nil => exact absurd mem (by rw [levelsOfClasses]; exact not_mem_nil)
  | cons child classes ih =>
    rw [levelsOfClasses] at mem
    rcases mem_append.mp mem with inChild | inOthers
    · exact ⟨child, mem_cons_self, inChild⟩
    · obtain ⟨other, isOther, isLevel⟩ := ih inOthers
      exact ⟨other, mem_cons_of_mem _ isOther, isLevel⟩

theorem balanced_of_mem_levels (exact : disc.Exact) (mem : level ∈ disc.levels) : level.node.Balanced level.held := by
  induction exact with
  | mk balanced stored noPending exact ih =>
    rw [levels] at mem
    rcases mem_cons.mp mem with rfl | below
    · exact balanced
    · obtain ⟨child, isChild, isLevel⟩ := mem_levelsOfClasses below
      exact ih child isChild isLevel

theorem held_le_of_mem_levels (exact : disc.Exact) (mem : level ∈ disc.levels) : level.held ≤ disc.held := by
  induction exact with
  | @mk node queues classes balanced stored noPending exact ih =>
    rw [levels] at mem
    rcases mem_cons.mp mem with rfl | below
    · exact le_rfl
    · obtain ⟨child, isChild, isLevel⟩ := mem_levelsOfClasses below
      obtain ⟨before, behind, rfl⟩ := append_of_mem isChild
      refine (ih child isChild isLevel).trans ?_
      rw [held_mk, heldByClasses_append, heldByClasses_cons]
      exact Multiset.le_iff_exists_add.mpr
        ⟨node.stored + (queues.flatten + (heldByClasses before + heldByClasses behind)), by abel⟩

theorem dequeued_of_kept (kept : root.Kept) : root.disc.node.totalDequeued =
    countOf (root.disc.node.pending + root.sent + root.taken + root.dropped) := by
  have balanced := kept.ledger.exact.balanced
  have accepted := congrArg countOf kept.ledger.accepted
  have held := balanced.held
  rw [kept.ledger.totalEnqueued, accepted] at held
  have dequeued := sub_eq_iff_eq_add.mp held
  simp only [countOf_add, add_zero, add_assoc] at dequeued ⊢
  exact (add_left_cancel dequeued).symm

theorem Inv.accounts_iff_holds (inv : discs.Inv) : discs.Accounts ↔ discs.Holds ∧ discs.Fits := by
  constructor
  · intro accounts
    refine ⟨accounts.headers, fun root mem => ?_, fun isParent => ?_⟩
    · have books := accounts.levels root mem root.disc (by cases root.disc; exact mem_cons_self)
      have balanced := (inv.kept root mem).ledger.exact.balanced
      exact (counted_iff balanced.current balanced.held).mp ⟨books.current, books.packets, books.bytes⟩
    · obtain ⟨node, isParent⟩ := isSome_iff_exists.mp isParent
      have books := accounts.parent node isParent
      have hears := inv.hears node isParent
      have received := books.received
      rw [hears.totalReceived, hears.arrived] at received
      exact ⟨(counted_iff hears.current hears.held).mp ⟨books.current, books.packets, books.bytes⟩,
        countOf_eq_zero_iff.mp received.symm⟩
  · rintro ⟨headers, fits⟩
    refine ⟨?_, ?_, ?_, ?_, ?_, headers⟩
    · intro root mem level isLevel
      have exact := (inv.kept root mem).ledger.exact
      have balanced := balanced_of_mem_levels exact isLevel
      obtain ⟨current, packets, bytes⟩ := (counted_iff balanced.current balanced.held).mpr
        ((fits.roots root mem).mono (held_le_of_mem_levels exact isLevel))
      exact ⟨balanced.received, current, packets, bytes⟩
    · intro node isParent
      have hears := inv.hears node isParent
      obtain ⟨countable, arrived⟩ := fits.parent (isSome_of_mem isParent)
      obtain ⟨current, packets, bytes⟩ := (counted_iff hears.current hears.held).mpr countable
      refine ⟨?_, current, packets, bytes⟩
      rw [hears.totalReceived, hears.arrived, countOf_eq_zero_iff.mpr arrived]
    · exact fun root mem => ⟨dequeued_of_kept (inv.kept root mem), (inv.kept root mem).ledger.totalDroppedAfterDequeue⟩
    · exact fun root mem => ⟨(inv.kept root mem).distinct, (inv.kept root mem).arrived⟩
    · intro root mem
      have accepted := (inv.kept root mem).ledger.accepted
      rwa [add_zero] at accepted

theorem inv_of_initial (initial : transitions.Initial discs) : discs.Inv ∧ discs.Holds := by
  obtain ⟨isNew, parent⟩ := initial
  have nothing : heldByRoots discs.roots = 0 ∧ arrivedAtRoots discs.roots = 0 := by
    constructor <;> apply sum_eq_zero <;> intro items mem <;> obtain ⟨root, isRoot, rfl⟩ := List.mem_map.mp mem
    · exact (kept_of_isNew (isNew root isRoot)).2.1
    · exact (kept_of_isNew (isNew root isRoot)).2.2
  refine ⟨⟨fun root mem => (kept_of_isNew (isNew root mem)).1, fun node isParent => ?_⟩,
    fun root mem => ?_⟩
  · rcases parent with ⟨isNone, one⟩ | isParentNew
    · rw [isNone] at isParent
      exact absurd isParent (not_mem_none node)
    · rw [isParentNew] at isParent
      obtain rfl := mem_some_iff.mp isParent
      exact ⟨rfl, rfl, congrArg countOf nothing.2.symm, rfl, congrArg countOf nothing.1.symm⟩
  · rw [(isNew root mem).2]
    exact fun item none => absurd none (Multiset.notMem_zero item)

/-- The books are right and each packet has its header, in the state a run reaches, exactly if no
packet that only a peek has taken out has been sent, what is held can be counted, and a parent hears
of no packets. -/
theorem accounts_iff {trace : List (QueueDiscs × (Nat × Action))} (run : transitions.Run trace discs) :
    discs.Accounts ↔ (∀ entry ∈ trace, entry.1.Meets entry.2) ∧ discs.Fits := by
  have inv : discs.Inv :=
    run.invariant Inv (fun _ initial => (inv_of_initial initial).1) fun inv steps => inv.step steps
  rw [inv.accounts_iff_holds]
  have headers :=
    run.final_iff Inv Holds Meets (fun _ initial => inv_of_initial initial)
      (fun inv steps => inv.step steps)
    fun inv steps => Holds.step_iff inv steps
  exact and_congr_left' headers

def packet : QueueItem := { uid := 0, size := 100, txQueueIndex := 0 }

def empty : RootQueueDisc := { disc := .mk {} [[]] [] }

theorem empty_initial : transitions.Initial ⟨none, [empty]⟩ := by
  refine ⟨fun root mem => ?_, .inl ⟨rfl, rfl⟩⟩
  rw [mem_singleton.mp mem]
  exact ⟨.mk (fun queue mem => mem_singleton.mp mem) fun child mem => absurd mem not_mem_nil, rfl⟩

/-- `packet` is enqueued. -/
def enqueuedNode : QueueNode :=
  ((({} : QueueNode).receive packet).packetEnqueued packet).1

theorem empty_enqueues : Performs (.enqueue packet) empty.disc (.mk enqueuedNode [[packet]] []) [.enqueue packet] :=
  .enqueue (@Performs.enqueueInternal packet 0 {} (({} : QueueNode).receive packet) [] [] [] [] [] _ _ .stop)

def full : RootQueueDisc :=
  { empty.report (.mk enqueuedNode [[packet]] []) [.enqueue packet] with created := 1, arrived := {packet} + 0 }

theorem full_run : transitions.Run [(⟨none, [empty]⟩, (0, .enqueue 100 0 false))] ⟨none, [full]⟩ :=
  .step (.initial empty_initial)
    (@Steps.intro ⟨none, [empty]⟩ [] empty [] (.enqueue 100 0 false) full _ rfl
    (.enqueue empty_enqueues))

theorem full_dequeues (node : QueueNode) : Performs (.discipline ⟨none, 0⟩ ⟨none, [packet]⟩) (.mk node [[packet]] [])
    (.mk (node.packetDequeued packet).1 [[]] []) ((node.packetDequeued packet).2 ++ []) :=
  @Performs.dequeueInternal packet none 0 ⟨none, [packet]⟩ node [] [] [] [] [] _ _ .stop

theorem accounts_iff_packet : ∃ trace discs, transitions.Run trace discs ∧ discs.Accounts := by
  have dequeues : RootQueueDisc.DequeuesPacket none full (some packet) _ _ :=
    .dequeued rfl rfl (.dequeue rfl (full_dequeues enqueuedNode))
  have run := full_run.step (@Steps.intro ⟨none, [full]⟩ [] full [] (.restart none) _ _ rfl (.restart dequeues))
  refine ⟨_, _, run, (accounts_iff run).mpr ⟨?_, ?_⟩⟩
  · simp only [forall_mem_append, forall_mem_singleton]
    exact ⟨fun root _ => rfl, fun root isFull => (some.inj isFull) ▸ rfl⟩
  · refine ⟨fun root mem => ?_, fun none => absurd none Bool.false_ne_true⟩
    obtain rfl := mem_singleton.mp mem
    exact ⟨by decide, by decide⟩

/-- A peek has taken the packet out. -/
def peeked : RootQueueDisc :=
  full.report (.mk ((enqueuedNode.beginPeek.packetDequeued packet).1.endPeek (some packet)) [[]] []) []

/-- Peeked at, the packet is sent without its header. -/
theorem sends_without_header : ¬ ∀ trace discs, transitions.Run trace discs -> discs.Accounts := by
  intro all
  have peeks : Performs (.peek (some packet)) full.disc peeked.disc [] :=
    .peek rfl (full_dequeues enqueuedNode.beginPeek)
  have peeked_run := full_run.step (@Steps.intro ⟨none, [full]⟩ [] full [] .peek peeked _ rfl (.peek peeks))
  have sends : RootQueueDisc.DequeuesPacket none peeked (some packet) _ _ := .requeued rfl rfl
  have run := peeked_run.step (@Steps.intro ⟨none, [peeked]⟩ [] peeked [] (.restart none) _ _ rfl (.restart sends))
  have headers := (all _ _ run).headers _ mem_cons_self packet
  exact absurd (headers (Multiset.mem_singleton_self packet)) (by decide)

end QueueDiscs

end Ns3.TrafficControl
