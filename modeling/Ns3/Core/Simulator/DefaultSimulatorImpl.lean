import Ns3.Core.Scheduler.Model
import Ns3.Semantics.Agenda

/-!
# The default simulator

`DefaultSimulatorImpl` advances from event to event. Events are scheduled by a delay
and kept by a `Scheduler`, which the simulation may exchange; other threads hand theirs
over in a list that is emptied between events. A failed `NS_ASSERT` is `none`.
-/

namespace Ns3.Core

open Ns3.Semantics PriorityQueue

/-- `EventId`; `impl` is 0 in the ids that stand for no event. -/
structure EventId where
  impl : Nat
  ts : UInt64
  context : UInt32
  uid : UInt32
  deriving DecidableEq

/-- `EventId::UID::DESTROY`. -/
def destroyUid : UInt32 := 2

/-- `EventId::UID::VALID`, the first uid assigned. -/
def validUid : UInt32 := 4

/-- The event of an id, as `Remove` looks it up. -/
def EventId.event (id : EventId) : Event :=
  ⟨id.impl, ⟨id.ts, id.uid, id.context⟩⟩

/-- The id of an event. -/
def Event.id (event : Event) : EventId :=
  ⟨event.impl, event.key.ts, event.key.context, event.key.uid⟩

/-- `EventWithContext`. -/
structure EventWithContext where
  context : UInt32
  timestamp : UInt64
  event : Nat
  deriving DecidableEq

/-- `DefaultSimulatorImpl`. The schedulers are of several kinds; `cancelled` are the
`EventImpl`s whose `m_cancel` is set. -/
structure DefaultSimulatorImpl {Kind : Type} (Store : Kind -> Type) where
  kind : Kind
  events : Store kind
  eventsWithContext : List EventWithContext
  eventsWithContextEmpty : Bool
  destroyEvents : List EventId
  stop : Bool
  uid : UInt32
  currentUid : UInt32
  currentTs : UInt64
  currentContext : UInt32
  eventCount : UInt64
  unscheduledEvents : Int32
  cancelled : List Nat

namespace DefaultSimulatorImpl

variable {Kind : Type} {Store : Kind -> Type} (schedulers : (kind : Kind) -> Scheduler (Store kind))

/-- The simulator as constructed, with its first scheduler. -/
def construct (kind : Kind) : DefaultSimulatorImpl Store where
  kind := kind
  events := (schedulers kind).empty
  eventsWithContext := []
  eventsWithContextEmpty := true
  destroyEvents := []
  stop := false
  uid := validUid
  currentUid := 0
  currentTs := 0
  currentContext := 0xffffffff
  eventCount := 0
  unscheduledEvents := 0
  cancelled := []

variable (sim : DefaultSimulatorImpl Store)

/-- An event with the next uid, inserted. -/
def insertEvent (impl : Nat) (ts : UInt64) (context : UInt32) :
    Option (DefaultSimulatorImpl Store × Event) :=
  let ev : Event := ⟨impl, ⟨ts, sim.uid, context⟩⟩
  ((schedulers sim.kind).insert sim.events ev).map fun events =>
    ({ sim with
      events := events
      uid := sim.uid + 1
      unscheduledEvents := sim.unscheduledEvents + 1 }, ev)

/-- `delay + TimeStep(m_currentTs)`, a sum of 64-bit ticks. -/
def tAbsolute (delay : Int64) : UInt64 :=
  (delay + sim.currentTs.toInt64).toUInt64

def schedule (delay : Int64) (event : Nat) : Option (DefaultSimulatorImpl Store × Event) :=
  if delay < 0 then
    none
  else
    insertEvent schedulers sim event (sim.tAbsolute delay) sim.currentContext

/-- `ScheduleWithContext` in the main thread. -/
def scheduleWithContext (context : UInt32) (delay : Int64)
    (event : Nat) : Option (DefaultSimulatorImpl Store × Event) :=
  insertEvent schedulers sim event (sim.tAbsolute delay) context

/-- `ScheduleWithContext` in another thread. -/
def scheduleFromThread (context : UInt32) (delay : Int64)
    (event : Nat) : DefaultSimulatorImpl Store :=
  { sim with
    eventsWithContext := sim.eventsWithContext ++ [⟨context, delay.toUInt64, event⟩]
    eventsWithContextEmpty := false }

def scheduleNow (event : Nat) : Option (DefaultSimulatorImpl Store × Event) :=
  schedule schedulers sim 0 event

def scheduleDestroy (event : Nat) : DefaultSimulatorImpl Store × EventId :=
  let id : EventId := ⟨event, sim.currentTs, 0xffffffff, destroyUid⟩
  ({ sim with destroyEvents := sim.destroyEvents ++ [id], uid := sim.uid + 1 }, id)

def isCancelled (impl : Nat) : Bool :=
  sim.cancelled.contains impl

def isExpired (id : EventId) : Bool :=
  if id.uid = destroyUid then
    id.impl == 0 || sim.isCancelled id.impl || !sim.destroyEvents.contains id
  else
    id.impl == 0 || id.ts < sim.currentTs ||
      (id.ts == sim.currentTs && id.uid ≤ sim.currentUid) || sim.isCancelled id.impl

/-- `EventImpl::Cancel`. -/
def cancelImpl (impl : Nat) : DefaultSimulatorImpl Store :=
  { sim with cancelled := impl :: sim.cancelled }

def remove (id : EventId) : Option (DefaultSimulatorImpl Store) :=
  if id.uid = destroyUid then
    some { sim with destroyEvents := sim.destroyEvents.erase id }
  else if sim.isExpired id then
    some sim
  else
    ((schedulers sim.kind).remove sim.events id.event).map fun events =>
      cancelImpl { sim with
        events := events
        unscheduledEvents := sim.unscheduledEvents - 1 } id.impl

def cancel (id : EventId) : DefaultSimulatorImpl Store :=
  if sim.isExpired id then sim else sim.cancelImpl id.impl

/-- The loop of `SetScheduler`, with a bound on the events to move. -/
def moveEvents {From To : Type} (source : Scheduler From) (target : Scheduler To) : Nat -> From -> To -> Option To
  | 0, events, scheduler => if source.isEmpty events then some scheduler else none
  | fuel + 1, events, scheduler =>
    if source.isEmpty events then
      some scheduler
    else
      (source.removeNext events).bind fun (next, events) =>
        (target.insert scheduler next).bind fun scheduler =>
          moveEvents source target fuel events scheduler

def setScheduler (fuel : Nat) (sim : DefaultSimulatorImpl Store) (kind : Kind) :
    Option (DefaultSimulatorImpl Store) :=
  (moveEvents (schedulers sim.kind) (schedulers kind) fuel sim.events (schedulers kind).empty).map
    fun scheduler => { sim with kind := kind, events := scheduler }

/-- `ProcessOneEvent` up to the call of the event, which is handed out. -/
def processOneEvent : Option (DefaultSimulatorImpl Store × Event) :=
  ((schedulers sim.kind).removeNext sim.events).bind fun (next, events) =>
    if next.key.ts < sim.currentTs then
      none
    else
      some ({ sim with
        events := events
        unscheduledEvents := sim.unscheduledEvents - 1
        eventCount := sim.eventCount + 1
        currentTs := next.key.ts
        currentContext := next.key.context
        currentUid := next.key.uid }, next)

/-- The swap of `ProcessEventsWithContext`, with the list it goes on to empty. -/
def swapQueues : DefaultSimulatorImpl Store × List EventWithContext :=
  if sim.eventsWithContextEmpty then
    (sim, [])
  else
    ({ sim with eventsWithContext := [], eventsWithContextEmpty := true }, sim.eventsWithContext)

/-- An iteration of `ProcessEventsWithContext`. -/
def transfer (event : EventWithContext) : Option (DefaultSimulatorImpl Store × Event) :=
  insertEvent schedulers sim event.event (sim.currentTs + event.timestamp) event.context

end DefaultSimulatorImpl

end Ns3.Core
