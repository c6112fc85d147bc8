import Mathlib.Algebra.Order.Ring.Nat
import Ns3.Core.Simulator.DefaultSimulatorImpl

/-!
# Runs of the default simulator

A program calls the simulator before `Run` and from inside events, and other threads
schedule at any time. A `Session` adds to the simulator where the main thread is and the
history of the events, which is what the properties of whole runs speak of.
-/

namespace Ns3.Core

open Ns3.Semantics PriorityQueue DefaultSimulatorImpl Option

/-- Where the main thread is: in the program, between two events, or in an event. -/
inductive Control where
  | program
  | loop
  | event
  deriving DecidableEq

/-- A call of the program, a call of another thread, or a part of `Run`. -/
inductive Action (Kind : Type) where
  | schedule (delay : Int64) (event : Nat)
  | scheduleNow (event : Nat)
  | scheduleWithContext (context : UInt32) (delay : Int64) (event : Nat)
  | scheduleFromThread (context : UInt32) (delay : Int64) (event : Nat)
  | scheduleDestroy (event : Nat)
  | cancel (id : EventId)
  | remove (id : EventId)
  | setScheduler (kind : Kind)
  | stop
  | run
  | transfer
  | processOneEvent
  | eventReturns
  | runReturns

/-- `Schedule` and `ScheduleNow` return the id of the event. -/
def Action.returnsId {Kind : Type} : Action Kind -> Bool
  | schedule .. | scheduleNow .. => true
  | _ => false

/-- An event, and the time it has been scheduled for. -/
structure Appointment where
  due : Int
  event : Event
  deriving DecidableEq

/-- An event `ProcessOneEvent` took out, when, and whether `Invoke` notified it. -/
structure Execution where
  time : UInt64
  event : Event
  invoked : Bool
  deriving DecidableEq

/-- A simulator in use. `transferring` is the list `ProcessEventsWithContext` empties,
`waiting` the events inserted and not taken out, `ids` what `Schedule` returned, and
`assigned` the number of uids used up. -/
structure Session {Kind : Type} (Store : Kind -> Type) where
  sim : DefaultSimulatorImpl Store
  control : Control
  transferring : List EventWithContext
  waiting : Multiset Event
  scheduled : List Appointment
  executions : List Execution
  removed : Multiset Event
  ids : List EventId
  assigned : Nat

namespace Session

variable {Kind : Type} {Store : Kind -> Type} (schedulers : (kind : Kind) -> Scheduler (Store kind))

/-- Nothing scheduled yet. -/
def start (kind : Kind) : Session Store :=
  ⟨.construct schedulers kind, .program, [], 0, [], [], 0, [], 0⟩

variable (session : Session Store)

/-- The time a delay from now leads to. -/
def due (delay : Int64) : Int :=
  session.sim.currentTs.toNat + delay.toInt

/-- The event an action inserts, and the time it is scheduled for. -/
def arrival : Action Kind -> Option Appointment
  | .schedule delay event =>
    some ⟨session.due delay, event, session.sim.tAbsolute delay, session.sim.uid, session.sim.currentContext⟩
  | .scheduleNow event =>
    some ⟨session.due 0, event, session.sim.tAbsolute 0, session.sim.uid, session.sim.currentContext⟩
  | .scheduleWithContext context delay event =>
    some ⟨session.due delay, event, session.sim.tAbsolute delay, session.sim.uid, context⟩
  | .transfer => session.transferring.head?.map fun event =>
    ⟨session.due event.timestamp.toInt64, event.event, session.sim.currentTs + event.timestamp,
      session.sim.uid, event.context⟩
  | _ => none

/-- The ids a program has: those returned, those of `ScheduleDestroy`, and `EventId()`. -/
def Known (id : EventId) : Prop :=
  id ∈ session.ids ∨ id.uid = destroyUid ∨ id.impl = 0

instance (session : Session Store) (id : EventId) : Decidable (session.Known id) :=
  inferInstanceAs (Decidable (_ ∨ _))

/-- The id whose event an action removes from the scheduler. -/
def removal : Action Kind -> Option EventId
  | .remove id =>
    if session.Known id ∧ id.uid ≠ destroyUid ∧ session.sim.isExpired id = false then
      some id
    else none
  | _ => none

/-- An event that has been inserted. -/
def arrive (inserted : DefaultSimulatorImpl Store × Event) (due : Int) : Session Store :=
  { session with
    sim := inserted.1
    waiting := inserted.2 ::ₘ session.waiting
    scheduled := session.scheduled ++ [⟨due, inserted.2⟩]
    assigned := session.assigned + 1 }

/-- An event whose id has been returned. -/
def returnId (event : Event) : Session Store :=
  { session with ids := session.ids ++ [event.id] }

/-- The main thread goes on to empty the list of the other threads. -/
def processEventsWithContext : Session Store :=
  { session with
    sim := session.sim.swapQueues.1
    control := .loop
    transferring := session.sim.swapQueues.2 }

def step : Action Kind -> Option (Session Store)
  | .schedule delay event =>
    if session.control ≠ .loop ∧ event ≠ 0 then
      (session.sim.schedule schedulers delay event).map fun inserted =>
        (session.arrive inserted (session.due delay)).returnId inserted.2
    else none
  | .scheduleNow event =>
    if session.control ≠ .loop ∧ event ≠ 0 then
      (session.sim.scheduleNow schedulers event).map fun inserted =>
        (session.arrive inserted (session.due 0)).returnId inserted.2
    else none
  | .scheduleWithContext context delay event =>
    if session.control ≠ .loop ∧ event ≠ 0 then
      (session.sim.scheduleWithContext schedulers context delay event).map fun inserted =>
        session.arrive inserted (session.due delay)
    else none
  | .scheduleFromThread context delay event =>
    if event ≠ 0 then
      some { session with sim := session.sim.scheduleFromThread context delay event }
    else none
  | .scheduleDestroy event =>
    if session.control ≠ .loop then
      some { session with
        sim := (session.sim.scheduleDestroy event).1
        assigned := session.assigned + 1 }
    else none
  | .cancel id =>
    if session.control ≠ .loop ∧ session.Known id then
      some { session with sim := session.sim.cancel id }
    else none
  | .remove id =>
    if session.control ≠ .loop ∧ session.Known id then
      (session.sim.remove schedulers id).map fun sim =>
        if id.uid = destroyUid ∨ session.sim.isExpired id then
          { session with sim := sim }
        else
          { session with
            sim := sim
            waiting := session.waiting.erase id.event
            removed := id.event ::ₘ session.removed }
    else none
  | .setScheduler kind =>
    if session.control ≠ .loop then
      (session.sim.setScheduler schedulers session.assigned kind).map fun sim =>
        { session with sim := sim }
    else none
  | .stop =>
    if session.control ≠ .loop then
      some { session with sim := { session.sim with stop := true } }
    else none
  | .run =>
    if session.control = .program then
      let session := session.processEventsWithContext
      some { session with sim := { session.sim with stop := false } }
    else none
  | .transfer =>
    match session.transferring with
    | [] => none
    | event :: rest =>
      (session.sim.transfer schedulers event).map fun inserted =>
        { session.arrive inserted (session.due event.timestamp.toInt64) with
          transferring := rest }
  | .processOneEvent =>
    if session.control = .loop ∧ session.transferring = [] ∧ session.sim.stop = false ∧
        (schedulers session.sim.kind).isEmpty session.sim.events = false then
      (session.sim.processOneEvent schedulers).map fun (sim, event) =>
        { session with
          sim := sim
          control := .event
          waiting := session.waiting.erase event
          executions := session.executions ++ [⟨sim.currentTs, event, !sim.isCancelled event.impl⟩] }
    else none
  | .eventReturns =>
    if session.control = .event then some session.processEventsWithContext else none
  | .runReturns =>
    if session.control = .loop ∧ session.transferring = [] ∧ (session.sim.stop = true ∨
          (schedulers session.sim.kind).isEmpty session.sim.events = true) ∧
        ((schedulers session.sim.kind).isEmpty session.sim.events = false ∨ session.sim.unscheduledEvents = 0) then
      some { session with control := .program }
    else none

/-- What an action can do to the events, the clock and the counters. -/
inductive Effect (session : Session Store) (action : Action Kind) : Session Store -> Prop where
  | arrives {appointment : Appointment} {events : Store session.sim.kind}
      {transferring : List EventWithContext} (enabled : session.arrival action = some appointment)
      (inserted : (schedulers session.sim.kind).insert session.sim.events appointment.event = some events)
      (positive : action.returnsId -> appointment.event.impl ≠ 0 ∧ session.sim.currentTs.toNat ≤ appointment.due) :
      Effect session action { session with
          sim := { session.sim with
            events := events
            uid := session.sim.uid + 1
            unscheduledEvents := session.sim.unscheduledEvents + 1 }
          transferring := transferring
          waiting := appointment.event ::ₘ session.waiting
          scheduled := session.scheduled ++ [appointment]
          ids := if action.returnsId then session.ids ++ [appointment.event.id] else session.ids
          assigned := session.assigned + 1 }
  | executes {next : Event} {events : Store session.sim.kind} (processes : action = .processOneEvent)
      (taken : (schedulers session.sim.kind).removeNext session.sim.events = some (next, events))
      (nonempty : (schedulers session.sim.kind).isEmpty session.sim.events = false)
      (onTime : ¬next.key.ts < session.sim.currentTs) :
      Effect session action { session with
          sim := { session.sim with
            events := events
            unscheduledEvents := session.sim.unscheduledEvents - 1
            eventCount := session.sim.eventCount + 1
            currentTs := next.key.ts
            currentContext := next.key.context
            currentUid := next.key.uid }
          control := .event
          waiting := session.waiting.erase next
          executions := session.executions ++ [⟨next.key.ts, next, !session.sim.isCancelled next.impl⟩] }
  | removes {id : EventId} {events : Store session.sim.kind} (enabled : session.removal action = some id)
      (removed : (schedulers session.sim.kind).remove session.sim.events id.event = some events) :
      Effect session action { session with
          sim := cancelImpl { session.sim with
            events := events
            unscheduledEvents := session.sim.unscheduledEvents - 1 } id.impl
          waiting := session.waiting.erase id.event
          removed := id.event ::ₘ session.removed }
  | cancels {id : EventId} : Effect session action { session with sim := session.sim.cancelImpl id.impl }
  | exchanges {kind : Kind} {scheduler : Store kind} (exchange : action = .setScheduler kind)
      (moved : moveEvents (schedulers session.sim.kind) (schedulers kind) session.assigned
        session.sim.events (schedulers kind).empty = some scheduler) :
      Effect session action { session with sim := { session.sim with kind := kind, events := scheduler } }
  | reserves {destroyEvents : List EventId} : Effect session action { session with
          sim := { session.sim with
            destroyEvents := destroyEvents
            uid := session.sim.uid + 1 }
          assigned := session.assigned + 1 }
  | arranges (eventsWithContext : List EventWithContext) (eventsWithContextEmpty stop : Bool)
      (destroyEvents : List EventId) (control : Control) (transferring : List EventWithContext) :
      Effect session action { session with
          sim := { session.sim with
            eventsWithContext := eventsWithContext
            eventsWithContextEmpty := eventsWithContextEmpty
            destroyEvents := destroyEvents
            stop := stop }
          control := control
          transferring := transferring }

variable {schedulers} {session : Session Store} {action : Action Kind} {appointment : Appointment}

theorem arrives_of_insertEvent {next : Session Store} {inserted : DefaultSimulatorImpl Store × Event}
    (transferring : List EventWithContext) (enabled : session.arrival action = some appointment)
    (uid : appointment.event.key.uid = session.sim.uid)
    (success : session.sim.insertEvent schedulers appointment.event.impl appointment.event.key.ts
      appointment.event.key.context = some inserted)
    (pos : action.returnsId -> appointment.event.impl ≠ 0 ∧ session.sim.currentTs.toNat ≤ appointment.due)
    (same : next = { session.arrive inserted appointment.due with
      transferring := transferring
      ids := if action.returnsId then session.ids ++ [inserted.2.id] else session.ids }) :
    session.Effect schedulers action next := by
  obtain ⟨events, stored, rfl⟩ := map_eq_some_iff.mp success
  rw [← uid] at stored same
  subst same
  have effect := @Effect.arrives Kind Store schedulers session action appointment events transferring
    enabled stored pos
  rw [← uid] at effect
  exact effect

theorem swapQueues_eq (sim : DefaultSimulatorImpl Store) : ∃ eventsWithContext transferring, sim.swapQueues =
      ({ sim with
        eventsWithContext := eventsWithContext
        eventsWithContextEmpty := true }, transferring) := by
  rw [swapQueues]
  split
  · rename_i flag
    refine ⟨sim.eventsWithContext, [], ?_⟩
    rw [← flag]
  · exact ⟨[], sim.eventsWithContext, rfl⟩

theorem removal_eq_some {id : EventId} (enabled : session.removal action = some id) :
    action = .remove id ∧ session.Known id ∧ id.uid ≠ destroyUid ∧ session.sim.isExpired id = false := by
  unfold removal at enabled
  split at enabled
  · obtain ⟨pending, same⟩ := ite_none_right_eq_some.mp enabled
    cases same
    exact ⟨rfl, pending⟩
  · cases enabled

/-- Sums of ticks wrap around at the 64th bit. -/
theorem tAbsolute_toNat (session : Session Store) (delay : Int64) :
    ((session.sim.tAbsolute delay).toNat : Int) = session.due delay % 2 ^ 64 := by
  have low : (delay.toUInt64.toNat : Int) = delay.toInt % 2 ^ 64 := by
    rw [← Int64.toInt_toBitVec, BitVec.toInt_eq_toNat_cond, ← Int64.toNat_toBitVec]
    split <;> omega
  rw [tAbsolute, Int64.toUInt64_add, UInt64.toUInt64_toInt64, UInt64.toNat_add, due]
  omega

theorem arrival_ts (enabled : session.arrival action = some appointment) :
    (appointment.event.key.ts.toNat : Int) = appointment.due % 2 ^ 64 := by
  unfold arrival at enabled
  split at enabled
  · cases enabled
    exact session.tAbsolute_toNat _
  · cases enabled
    exact session.tAbsolute_toNat 0
  · cases enabled
    exact session.tAbsolute_toNat _
  · obtain ⟨event, -, rfl⟩ := map_eq_some_iff.mp enabled
    rw [← session.tAbsolute_toNat, tAbsolute, Int64.toUInt64_add, UInt64.toUInt64_toInt64,
      UInt64.toUInt64_toInt64, UInt64.add_comm]
  · cases enabled

theorem arrival_uid (enabled : session.arrival action = some appointment) :
    appointment.event.key.uid = session.sim.uid := by
  unfold arrival at enabled
  split at enabled
  · cases enabled
    rfl
  · cases enabled
    rfl
  · cases enabled
    rfl
  · obtain ⟨event, -, rfl⟩ := map_eq_some_iff.mp enabled
    rfl
  · cases enabled

theorem due_of_not_neg (session : Session Store) {delay : Int64} (pos : ¬delay < 0) :
    session.sim.currentTs.toNat ≤ session.due delay := by
  have nonnegative : (0 : Int) ≤ delay.toInt := by
    rw [Int64.lt_iff_toInt_lt] at pos
    simpa using pos
  rw [due]
  omega

theorem effect_of_step {next : Session Store} (moves : session.step schedulers action = some next) :
    session.Effect schedulers action next := by
  cases action with
  | schedule delay event =>
    simp only [step, ite_none_right_eq_some, map_eq_some_iff, schedule,
      ite_none_left_eq_some] at moves
    obtain ⟨⟨-, nonnull⟩, inserted, ⟨pos, success⟩, rfl⟩ := moves
    exact arrives_of_insertEvent session.transferring rfl rfl success
      (fun _ => ⟨nonnull, session.due_of_not_neg pos⟩) rfl
  | scheduleNow event =>
    simp only [step, ite_none_right_eq_some, map_eq_some_iff, scheduleNow,
      schedule, ite_none_left_eq_some] at moves
    obtain ⟨⟨-, nonnull⟩, inserted, ⟨pos, success⟩, rfl⟩ := moves
    exact arrives_of_insertEvent session.transferring rfl rfl success
      (fun _ => ⟨nonnull, session.due_of_not_neg pos⟩) rfl
  | scheduleWithContext context delay event =>
    simp only [step, ite_none_right_eq_some, map_eq_some_iff] at moves
    obtain ⟨-, inserted, success, rfl⟩ := moves
    exact arrives_of_insertEvent session.transferring rfl rfl success
      (fun returns => absurd returns Bool.false_ne_true) rfl
  | scheduleFromThread context delay event =>
    simp only [step, ite_none_right_eq_some, some.injEq] at moves
    obtain ⟨-, rfl⟩ := moves
    exact .arranges _ _ _ _ _ _
  | scheduleDestroy event =>
    simp only [step, ite_none_right_eq_some, some.injEq] at moves
    obtain ⟨-, rfl⟩ := moves
    exact .reserves
  | cancel id =>
    simp only [step, ite_none_right_eq_some, some.injEq] at moves
    obtain ⟨-, rfl⟩ := moves
    by_cases expired : session.sim.isExpired id
    · rw [cancel, if_pos expired]
      exact .arranges _ _ _ _ _ _
    · rw [cancel, if_neg expired]
      exact .cancels
  | remove id =>
    simp only [step, ite_none_right_eq_some, map_eq_some_iff,
      remove] at moves
    obtain ⟨⟨-, known⟩, sim, removed, rfl⟩ := moves
    by_cases destroy : id.uid = destroyUid
    · rw [if_pos destroy, some.injEq] at removed
      subst removed
      rw [if_pos (.inl destroy)]
      exact .arranges _ _ _ _ _ _
    · rw [if_neg destroy] at removed
      by_cases expired : session.sim.isExpired id
      · rw [if_pos expired, some.injEq] at removed
        subst removed
        rw [if_pos (.inr expired)]
        exact .arranges _ _ _ _ _ _
      · rw [if_neg expired, map_eq_some_iff] at removed
        obtain ⟨events, removed, rfl⟩ := removed
        rw [if_neg (not_or.mpr ⟨destroy, expired⟩)]
        exact .removes (if_pos ⟨known, destroy, Bool.not_eq_true _ ▸ expired⟩) removed
  | setScheduler kind =>
    simp only [step, ite_none_right_eq_some, map_eq_some_iff,
      setScheduler] at moves
    obtain ⟨-, _, ⟨scheduler, moved, rfl⟩, rfl⟩ := moves
    exact .exchanges rfl moved
  | stop =>
    simp only [step, ite_none_right_eq_some, some.injEq] at moves
    obtain ⟨-, rfl⟩ := moves
    exact .arranges _ _ _ _ _ _
  | run =>
    obtain ⟨eventsWithContext, transferring, swapped⟩ := swapQueues_eq session.sim
    simp only [step, ite_none_right_eq_some, some.injEq] at moves
    obtain ⟨-, rfl⟩ := moves
    rw [processEventsWithContext, swapped]
    exact .arranges _ _ _ _ _ _
  | transfer =>
    rw [step] at moves
    split at moves
    · cases moves
    · rename_i event rest waits
      obtain ⟨inserted, success, rfl⟩ := map_eq_some_iff.mp moves
      have enabled : session.arrival .transfer = some ⟨session.due event.timestamp.toInt64,
          event.event, session.sim.currentTs + event.timestamp, session.sim.uid,
          event.context⟩ := by
        rw [arrival, waits]
        rfl
      exact arrives_of_insertEvent rest enabled rfl success
        (fun returns => absurd returns Bool.false_ne_true) rfl
  | processOneEvent =>
    simp only [step, ite_none_right_eq_some, map_eq_some_iff,
      processOneEvent, bind_eq_some_iff] at moves
    obtain ⟨⟨-, -, -, nonempty⟩, ⟨sim, event⟩, ⟨⟨next, events⟩, taken, advanced⟩, rfl⟩ := moves
    obtain ⟨onTime, same⟩ := ite_none_left_eq_some.mp advanced
    obtain ⟨rfl, rfl⟩ := Prod.mk.inj (some.inj same)
    exact .executes rfl taken nonempty onTime
  | eventReturns =>
    obtain ⟨eventsWithContext, transferring, swapped⟩ := swapQueues_eq session.sim
    simp only [step, ite_none_right_eq_some, some.injEq] at moves
    obtain ⟨-, rfl⟩ := moves
    rw [processEventsWithContext, swapped]
    exact .arranges _ _ _ _ _ _
  | runReturns =>
    simp only [step, ite_none_right_eq_some, some.injEq] at moves
    obtain ⟨-, rfl⟩ := moves
    exact .arranges _ _ _ _ _ _

/-- Moving the events of a scheduler moves all of them, given the fuel for it. -/
theorem moveEvents_spec {From To : Type} {source : Scheduler From} {target : Scheduler To}
    {InSource : From -> Multiset Event -> Prop} {InTarget : To -> Multiset Event -> Prop}
    (fromSource : Implements source Event.uid Event.rank InSource fun _ _ => True)
    (toTarget : Implements target Event.uid Event.rank InTarget fun _ _ => True)
    {fuel : Nat} {events : From} {scheduler : To} {stored moved : Multiset Event}
    (inSource : InSource events stored) (inTarget : InTarget scheduler moved)
    (distinct : ((stored + moved).map Event.uid).Nodup) (enough : stored.card ≤ fuel) :
    ∃ next, moveEvents source target fuel events scheduler = some next ∧ InTarget next (stored + moved) := by
  induction fuel generalizing events scheduler stored moved with
  | zero =>
    obtain rfl := Multiset.card_eq_zero.mp (Nat.le_zero.mp enough)
    rw [moveEvents, if_pos ((fromSource.isEmpty inSource).mpr rfl), Multiset.zero_add]
    exact ⟨scheduler, rfl, inTarget⟩
  | succ fuel ih =>
    by_cases empty : stored = 0
    · subst empty
      rw [moveEvents, if_pos ((fromSource.isEmpty inSource).mpr rfl), Multiset.zero_add]
      exact ⟨scheduler, rfl, inTarget⟩
    · obtain ⟨next, rest, taken, remains, mem, -⟩ := fromSource.removeNext inSource empty
      have split : stored + moved = stored.erase next + (next ::ₘ moved) := by
        rw [Multiset.add_cons, ← Multiset.cons_add, Multiset.cons_erase mem]
      rw [split] at distinct ⊢
      have fresh : Fresh Event.uid next moved := by
        intro other known same
        rw [Multiset.add_cons, Multiset.map_cons, Multiset.nodup_cons] at distinct
        exact distinct.1 (Multiset.mem_map.mpr ⟨other, Multiset.mem_add.mpr (.inr known), same⟩)
      obtain ⟨inserted, success, holds⟩ := toTarget.insert inTarget fresh
      have fewer : (stored.erase next).card ≤ fuel := by
        have := Multiset.card_erase_add_one mem
        omega
      have more : ¬source.isEmpty events = true :=
        fun known => empty ((fromSource.isEmpty inSource).mp known)
      simp only [moveEvents, if_neg more, taken, success, bind_some]
      exact ih remains holds distinct fewer

/-- The scheduler holds the waiting events, which are told apart by their uids. -/
structure Consistent (Represents : (kind : Kind) -> Store kind -> Multiset Event -> Prop)
    (session : Session Store) : Prop where
  represents : Represents session.sim.kind session.sim.events session.waiting
  distinct : (session.waiting.map Event.uid).Nodup
  bounded : session.waiting.card ≤ session.assigned

/-- What an action is to respect: an inserted event gets a uid that no waiting one has,
and the event of an id that has not expired waits. -/
structure Sound (session : Session Store) (action : Action Kind) : Prop where
  fresh : ∀ appointment, session.arrival action = some appointment -> Fresh Event.uid appointment.event session.waiting
  present : ∀ id, session.removal action = some id -> id.event ∈ session.waiting

instance (session : Session Store) (action : Action Kind) : Decidable (Sound session action) :=
  decidable_of_iff ((∀ appointment ∈ (session.arrival action).toList,
        ∀ other ∈ session.waiting, other.uid ≠ appointment.event.uid) ∧
      ∀ id ∈ (session.removal action).toList, id.event ∈ session.waiting)
    (by simp only [mem_toList]; exact ⟨fun both => ⟨both.1, both.2⟩, fun sound => ⟨sound.fresh, sound.present⟩⟩)

variable {Represents : (kind : Kind) -> Store kind -> Multiset Event -> Prop}

theorem nodup_erase {waiting : Multiset Event} (distinct : (waiting.map Event.uid).Nodup)
    (event : Event) : ((waiting.erase event).map Event.uid).Nodup :=
  Multiset.nodup_of_le (Multiset.map_le_map (Multiset.erase_le event waiting)) distinct

section

variable (correct : ∀ kind, Implements (schedulers kind) Event.uid Event.rank (Represents kind) fun _ _ => True)
include correct

theorem consistent_start (kind : Kind) : Consistent Represents (start schedulers kind) where
  represents := (correct kind).empty
  distinct := Multiset.nodup_zero
  bounded := Nat.le_refl 0

theorem Consistent.step {session next : Session Store} {action : Action Kind}
    (consistent : Consistent Represents session) (sound : Sound session action)
    (effect : session.Effect schedulers action next) : Consistent Represents next := by
  cases effect with
  | @arrives appointment events _ enabled inserted _ =>
    have fresh := sound.fresh appointment enabled
    obtain ⟨stored, success, rep⟩ :=
      (correct _).insert consistent.represents fresh
    cases inserted.symm.trans success
    refine ⟨rep, ?_, ?_⟩
    · rw [Multiset.map_cons, Multiset.nodup_cons]
      refine ⟨fun mem => ?_, consistent.distinct⟩
      obtain ⟨other, known, same⟩ := Multiset.mem_map.mp mem
      exact fresh other known same
    · rw [Multiset.card_cons]
      exact Nat.succ_le_succ consistent.bounded
  | @executes event events _ taken nonempty _ =>
    have waits : session.waiting ≠ 0 := fun none =>
      Bool.false_ne_true (nonempty.symm.trans (((correct _).isEmpty consistent.represents).mpr none))
    obtain ⟨first, rest, success, rep, -⟩ :=
      (correct _).removeNext consistent.represents waits
    obtain ⟨rfl, rfl⟩ := Prod.mk.inj (some.inj (taken.symm.trans success))
    exact ⟨rep, nodup_erase consistent.distinct event,
      (Multiset.card_le_card (Multiset.erase_le _ _)).trans consistent.bounded⟩
  | @removes id events enabled removed =>
    obtain ⟨rest, success, rep⟩ := (correct _).remove consistent.represents (sound.present id enabled)
    cases removed.symm.trans success
    exact ⟨rep, nodup_erase consistent.distinct id.event,
      (Multiset.card_le_card (Multiset.erase_le _ _)).trans consistent.bounded⟩
  | cancels => exact ⟨consistent.represents, consistent.distinct, consistent.bounded⟩
  | @exchanges kind scheduler _ moved =>
    obtain ⟨all, success, rep⟩ := moveEvents_spec (correct _) (correct kind)
      consistent.represents (correct kind).empty
      (by rw [Multiset.add_zero]; exact consistent.distinct) consistent.bounded
    cases moved.symm.trans success
    rw [Multiset.add_zero] at rep
    exact ⟨rep, consistent.distinct, consistent.bounded⟩
  | reserves =>
    exact ⟨consistent.represents, consistent.distinct, Nat.le_succ_of_le consistent.bounded⟩
  | arranges => exact ⟨consistent.represents, consistent.distinct, consistent.bounded⟩

theorem Consistent.taken {next : Event} {events : Store session.sim.kind} (consistent : Consistent Represents session)
    (taken : (schedulers session.sim.kind).removeNext session.sim.events = some (next, events))
    (nonempty : (schedulers session.sim.kind).isEmpty session.sim.events = false) :
    Least Event.rank next session.waiting := by
  have waits : session.waiting ≠ 0 := fun none =>
    Bool.false_ne_true (nonempty.symm.trans (((correct _).isEmpty consistent.represents).mpr none))
  obtain ⟨first, rest, success, -, least⟩ := (correct _).removeNext consistent.represents waits
  obtain ⟨rfl, -⟩ := Prod.mk.inj (some.inj (taken.symm.trans success))
  exact least

end

end Session

/-- The simulator in use, with schedulers of the given kinds. -/
def simulation {Kind : Type} {Store : Kind -> Type} (schedulers : (kind : Kind) -> Scheduler (Store kind)) :
    System (Session Store) (Action Kind) where
  Initial := fun session => ∃ kind, session = Session.start schedulers kind
  step := Session.step schedulers

end Ns3.Core
