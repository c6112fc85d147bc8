import Ns3.Core.Scheduler.ListScheduler
import Ns3.Core.Simulator.Session

/-!
# The order of execution

The simulator as an agenda: the events wait for their timestamps, those of one timestamp
in the order of their uids.
-/

namespace Ns3.Core

open Ns3.Semantics PriorityQueue List

def Event.time (event : Event) : Nat :=
  event.key.ts.toNat

def Event.order (event : Event) : Nat :=
  event.key.uid.toNat

namespace Session

variable {Kind : Type} {Store : Kind -> Type} {schedulers : (kind : Kind) -> Scheduler (Store kind)}
  {Represents : (kind : Kind) -> Store kind -> Multiset Event -> Prop}

/-- The events of a session. -/
def agenda (session : Session Store) : Agenda Event where
  waiting := session.waiting
  arrived := session.scheduled.map Appointment.event
  served := session.executions.map Execution.event
  withdrawn := session.removed

/-- Events are executed once, in time, and in the order they were scheduled in. -/
structure InOrder (schedulers : (kind : Kind) -> Scheduler (Store kind))
    (session : Session Store) : Prop where
  sorted : (session.executions.map fun execution => execution.time.toNat).Pairwise (· ≤ ·)
  once : (session.scheduled.map Appointment.event : Multiset Event) =
    session.waiting + (session.executions.map Execution.event : Multiset Event) + session.removed
  onTime : ∀ execution ∈ session.executions, ⟨execution.time.toNat, execution.event⟩ ∈ session.scheduled
  dueOnce : ∀ first ∈ session.scheduled, ∀ second ∈ session.scheduled,
    first.event = second.event -> first.due = second.due
  notified : ∀ execution ∈ session.executions, execution.invoked = false ->
    execution.event.impl ∈ session.sim.cancelled
  fifo : ∀ moment, (Agenda.ofTime Event.time moment (session.executions.map Execution.event)).Sublist
      (Agenda.ofTime Event.time moment (session.scheduled.map Appointment.event))
  proceeds : session.waiting ≠ 0 -> session.control = .loop -> session.transferring = [] ->
    session.sim.stop = false -> (session.step schedulers .processOneEvent).isSome

/-- What keeps the order: an inserted event is due neither in the past nor after the last
tick, its uid is new and behind those of the events that wait for the same timestamp,
and the event of an id that has not expired waits. -/
structure Regular (session : Session Store) (action : Action Kind) : Prop
    extends Sound session action where
  ahead : ∀ appointment, session.arrival action = some appointment ->
    session.sim.currentTs.toNat ≤ appointment.due ∧ appointment.due < 2 ^ 64
  behind : ∀ appointment, session.arrival action = some appointment ->
    ∀ other ∈ session.waiting, other.time = appointment.event.time -> other.order < appointment.event.order

instance (session : Session Store) (action : Action Kind) : Decidable (Regular session action) :=
  decidable_of_iff (Sound session action ∧ ∀ appointment ∈ (session.arrival action).toList,
      (session.sim.currentTs.toNat ≤ appointment.due ∧ appointment.due < 2 ^ 64) ∧
        ∀ other ∈ session.waiting, other.time = appointment.event.time -> other.order < appointment.event.order)
    (by
      simp only [Option.mem_toList]
      exact ⟨fun ⟨sound, ordered⟩ => ⟨sound, fun appointment enabled =>
        (ordered appointment enabled).1, fun appointment enabled =>
        (ordered appointment enabled).2⟩,
        fun regular => ⟨regular.toSound, fun appointment enabled =>
          ⟨regular.ahead appointment enabled, regular.behind appointment enabled⟩⟩⟩)

/-- The agenda has been kept, and the history of the session is that of the agenda. -/
structure Orderly (Represents : (kind : Kind) -> Store kind -> Multiset Event -> Prop)
    (session : Session Store) : Prop extends Consistent Represents session where
  kept : Agenda.Kept Event.time Event.order session.agenda session.sim.currentTs.toNat
  punctual : ∀ appointment ∈ session.scheduled, appointment.due = appointment.event.time
  timed : ∀ execution ∈ session.executions, execution.time = execution.event.key.ts
  notified : ∀ execution ∈ session.executions, execution.invoked = false ->
    execution.event.impl ∈ session.sim.cancelled

theorem earliest_of_least {event : Event} {waiting : Multiset Event} (least : Least Event.rank event waiting) :
    (∀ other ∈ waiting, event.time ≤ other.time) ∧
      ∀ other ∈ waiting, other.time = event.time -> event.order ≤ other.order := by
  refine ⟨fun other mem => Event.ts_le_of_rank (least.2 other mem), ?_⟩
  intro other mem same
  rcases Prod.Lex.toLex_le_toLex.mp (least.2 other mem) with earlier | ⟨-, before⟩
  · exact absurd same (Nat.ne_of_gt earlier)
  · exact before

variable {session : Session Store} {action : Action Kind}

theorem arrival_time {appointment : Appointment}
    (regular : Regular session action) (enabled : session.arrival action = some appointment) :
    appointment.due = appointment.event.time := by
  have ticks := arrival_ts enabled
  obtain ⟨notPast, notAfter⟩ := regular.ahead appointment enabled
  rw [Event.time, ticks, Int.emod_eq_of_lt (by omega) notAfter]

section

variable (correct : ∀ kind, Implements (schedulers kind) Event.uid Event.rank (Represents kind) fun _ _ => True)
include correct

theorem orderly_start (kind : Kind) : Orderly Represents (start schedulers kind) where
  toConsistent := consistent_start correct kind
  kept := Agenda.kept_empty _
  punctual := by simp [start]
  timed := by simp [start]
  notified := by simp [start]

theorem Orderly.step {next : Session Store}
    (orderly : Orderly Represents session) (regular : Regular session action)
    (effect : session.Effect schedulers action next) : Orderly Represents next := by
  have consistent := orderly.toConsistent.step correct regular.toSound effect
  cases effect with
  | @arrives appointment events _ enabled _ _ =>
    have time := arrival_time regular enabled
    have notPast := (regular.ahead appointment enabled).1
    refine ⟨consistent, ?_, ?_, orderly.timed, orderly.notified⟩
    · have kept := orderly.kept.arrive (by omega) (regular.behind appointment enabled)
      simpa [agenda, Agenda.arrive] using kept
    · intro other mem
      rcases mem_append.mp mem with old | last
      · exact orderly.punctual other old
      · rw [mem_singleton.mp last]
        exact time
  | @executes event events _ taken nonempty _ =>
    have least := orderly.taken correct taken nonempty
    obtain ⟨earliest, first⟩ := earliest_of_least least
    refine ⟨consistent, ?_, orderly.punctual, ?_, ?_⟩
    · have kept := orderly.kept.serve least.1 earliest first
      simpa [agenda, Agenda.serve, Event.time] using kept
    · intro execution mem
      rcases mem_append.mp mem with old | last
      · exact orderly.timed execution old
      · rw [mem_singleton.mp last]
    · intro execution mem silent
      rcases mem_append.mp mem with old | last
      · exact orderly.notified execution old silent
      · obtain rfl := mem_singleton.mp last
        simpa [DefaultSimulatorImpl.isCancelled] using silent
  | @removes id events enabled _ =>
    refine ⟨consistent, ?_, orderly.punctual, orderly.timed, ?_⟩
    · exact orderly.kept.withdraw (regular.present id enabled)
    · intro execution mem silent
      exact mem_cons_of_mem _ (orderly.notified execution mem silent)
  | cancels =>
    refine ⟨consistent, orderly.kept, orderly.punctual, orderly.timed, ?_⟩
    intro execution mem silent
    exact mem_cons_of_mem _ (orderly.notified execution mem silent)
  | exchanges => exact ⟨consistent, orderly.kept, orderly.punctual, orderly.timed, orderly.notified⟩
  | reserves => exact ⟨consistent, orderly.kept, orderly.punctual, orderly.timed, orderly.notified⟩
  | arranges => exact ⟨consistent, orderly.kept, orderly.punctual, orderly.timed, orderly.notified⟩

theorem Orderly.inOrder (orderly : Orderly Represents session) : session.InOrder schedulers where
  sorted := by
    have same : session.executions.map (fun execution => execution.time.toNat) =
        (session.executions.map Execution.event).map Event.time := by
      rw [List.map_map]
      refine map_congr_left fun execution mem => ?_
      rw [orderly.timed execution mem]
      rfl
    rw [same]
    exact orderly.kept.sorted
  once := orderly.kept.account
  onTime := by
    intro execution mem
    have known : execution.event ∈ (session.agenda.arrived : Multiset Event) := by
      rw [orderly.kept.account]
      exact Multiset.mem_add.mpr (.inl (Multiset.mem_add.mpr (.inr (List.mem_map_of_mem mem))))
    obtain ⟨⟨due, event⟩, scheduled, rfl⟩ := List.mem_map.mp (Multiset.mem_coe.mp known)
    have time : due = execution.time.toNat := by
      rw [orderly.timed execution mem]
      exact orderly.punctual _ scheduled
    rw [← time]
    exact scheduled
  dueOnce := by
    intro first firstMember second secondMember same
    rw [orderly.punctual first firstMember, orderly.punctual second secondMember, same]
  notified := orderly.notified
  fifo := orderly.kept.fifo
  proceeds := by
    intro waits looping emptied going
    obtain ⟨event, rest, taken, -, least⟩ := (correct _).removeNext orderly.represents waits
    have nonempty : (schedulers session.sim.kind).isEmpty session.sim.events = false := by
      rw [Bool.eq_false_iff, ne_eq, (correct _).isEmpty orderly.represents]
      exact waits
    have onTime : ¬event.key.ts < session.sim.currentTs := by
      have := orderly.kept.notLate event least.1
      rw [UInt64.lt_iff_toNat_lt]
      exact Nat.not_lt.mpr this
    simp [Session.step, DefaultSimulatorImpl.processOneEvent, looping, emptied, going, nonempty, taken, onTime]

end

/-- In every run whose steps are regular, events are executed in order. -/
theorem executes_in_order (correct : ∀ kind, Implements (schedulers kind) Event.uid Event.rank
    (Represents kind) fun _ _ => True) {trace : List (Session Store × Action Kind)}
    {session : Session Store} (run : (simulation schedulers).Run trace session)
    (regular : ∀ entry ∈ trace, Regular entry.1 entry.2) : session.InOrder schedulers := by
  have orderly : Orderly Represents session := by
    refine run.invariant_of_guard (Orderly Represents) Regular ?_ ?_ regular
    · rintro initial ⟨kind, rfl⟩
      exact orderly_start correct kind
    · intro before action after holds guarded transition
      exact holds.step correct guarded (effect_of_step transition)
  exact orderly.inOrder correct

end Session

section ListScheduler

/-- One kind of scheduler, the list. -/
def lists : Unit -> Scheduler (List Event) :=
  fun _ => ListScheduler.scheduler

abbrev ListSession := Session fun _ : Unit => List Event

/-- Events from the program, from an event and from another thread, of which one is
cancelled and one removed. -/
def workload : List (Action Unit) :=
  [.schedule 5 1, .schedule 3 2, .schedule 5 3, .scheduleWithContext 7 3 4, .setScheduler (), .run,
    .processOneEvent, .scheduleNow 5, .cancel ⟨1, 5, 0xffffffff, 4⟩, .remove ⟨3, 5, 0xffffffff, 6⟩,
    .scheduleFromThread 9 2 6, .eventReturns, .transfer, .processOneEvent, .eventReturns,
    .processOneEvent, .eventReturns, .processOneEvent, .eventReturns, .processOneEvent,
    .eventReturns, .runReturns]

/-- The events are 2, 4 and 5 at time 3, then 1, which is cancelled, and 6 at time 5. -/
theorem workload_in_order : ∃ session : ListSession,
    (simulation lists).exec (Session.start lists ()) workload = some session ∧
      session.executions.map (fun execution => (execution.time, execution.event.impl, execution.invoked)) =
          [(3, 2, true), (3, 4, true), (3, 5, true), (5, 1, false), (5, 6, true)] ∧
        session.InOrder lists := by
  have executed : ((simulation lists).exec (Session.start lists ()) workload).map
      (fun session => session.executions.map fun execution => (execution.time,
        execution.event.impl, execution.invoked)) =
      some [(3, 2, true), (3, 4, true), (3, 5, true), (5, 1, false), (5, 6, true)] := by
    decide +kernel
  obtain ⟨session, success, log⟩ := Option.map_eq_some_iff.mp executed
  have initial : (simulation lists).Initial (Session.start lists ()) := ⟨(), rfl⟩
  exact ⟨session, success, log, Session.executes_in_order (fun _ => ListScheduler.implements)
    (System.run_of_exec initial success) (by decide +kernel)⟩

/-- The event of an object, scheduled without delay at time 0. -/
def immediate (impl : Nat) (uid : UInt32) : Event :=
  ⟨impl, 0, uid, 0xffffffff⟩

/-- A run that is still at time 0, with the events in the list. -/
def atZero (control : Control) (events : List Event) (uid currentUid : UInt32)
    (eventCount : UInt64) (unscheduledEvents : Int32) (scheduled : List Appointment)
    (executions : List Execution) (ids : List EventId) (assigned : Nat) : ListSession where
  sim :=
    { DefaultSimulatorImpl.construct lists () with
      events := events
      uid := uid
      currentUid := currentUid
      eventCount := eventCount
      unscheduledEvents := unscheduledEvents }
  control := control
  transferring := []
  waiting := events
  scheduled := scheduled
  executions := executions
  removed := 0
  ids := ids
  assigned := assigned

variable {uid currentUid : UInt32} {eventCount : UInt64} {unscheduledEvents : Int32}
  {scheduled : List Appointment} {executions : List Execution} {ids : List EventId}
  {assigned : Nat}

theorem atZero_scheduleNow (events : List Event) {impl : Nat} (nonnull : impl ≠ 0) :
    (simulation lists).step (atZero .event events uid currentUid eventCount unscheduledEvents scheduled
        executions ids assigned) (.scheduleNow impl) =
      some (atZero .event (ListScheduler.insert (immediate impl uid) events) (uid + 1) currentUid
        eventCount (unscheduledEvents + 1) (scheduled ++ [⟨0, immediate impl uid⟩]) executions
        (ids ++ [(immediate impl uid).id]) (assigned + 1)) := by
  have inserted : immediate impl uid ::ₘ (events : Multiset Event) =
      ListScheduler.insert (immediate impl uid) events :=
    (ListScheduler.coe_insert (immediate impl uid) events).symm
  rw [atZero, atZero, ← inserted]
  exact (if_pos ⟨by simp, nonnull⟩).trans rfl

theorem atZero_eventReturns (events : List Event) :
    (simulation lists).step (atZero .event events uid currentUid eventCount unscheduledEvents scheduled
        executions ids assigned) .eventReturns =
      some (atZero .loop events uid currentUid eventCount unscheduledEvents scheduled executions ids assigned) :=
  rfl

theorem atZero_processOneEvent (impl : Nat) (next : UInt32) (rest : List Event) :
    (simulation lists).step (atZero .loop (immediate impl next :: rest) uid currentUid eventCount
        unscheduledEvents scheduled executions ids assigned) .processOneEvent =
      some (atZero .event rest uid next (eventCount + 1) (unscheduledEvents - 1) scheduled
        (executions ++ [⟨0, immediate impl next, true⟩]) ids assigned) := by
  have taken : ((immediate impl next :: rest : List Event) : Multiset Event).erase (immediate impl next) = rest := by
    rw [Multiset.coe_erase, erase_cons_head]
  rw [atZero, atZero, ← taken]
  rfl

/-- Event after event can schedule the next one without delay. -/
theorem exists_atZero (rounds : Nat) : ∃ eventCount unscheduledEvents scheduled executions ids assigned,
    (simulation lists).Reachable (atZero .event [] (UInt32.ofNat (5 + rounds))
      (UInt32.ofNat (4 + rounds)) eventCount unscheduledEvents scheduled executions ids
      assigned) ∧
    executions.map Execution.event = scheduled.map Appointment.event ∧
    ∀ event ∈ scheduled.map Appointment.event, event.time = 0 := by
  induction rounds with
  | zero =>
    exact ⟨1, 0, [⟨0, immediate 1 4⟩], [⟨0, immediate 1 4, true⟩], [(immediate 1 4).id], 1,
      System.reachable_of_exec ⟨(), rfl⟩ [.scheduleNow 1, .run, .processOneEvent] rfl, rfl,
      by simp [immediate, Event.time]⟩
  | succ rounds ih =>
    obtain ⟨_, _, scheduled, executions, _, _, reachable, same, zero⟩ := ih
    have after := ((reachable.step (atZero_scheduleNow [] Nat.one_ne_zero)).step
      (atZero_eventReturns _)).step (atZero_processOneEvent 1 _ [])
    rw [← UInt32.ofNat_one, ← UInt32.ofNat_add, Nat.add_assoc] at after
    refine ⟨_, _, _, _, _, _, (Nat.add_right_comm 4 rounds 1) ▸ after, ?_, ?_⟩
    · simp [same]
    · rw [map_append]
      exact forall_mem_append.mpr ⟨zero, by simp [immediate, Event.time]⟩

/-- After 2³² - 5 events the uids begin again at 0: of two events scheduled for the same
time, the second is executed first. -/
theorem uids_wrap_around : ∃ session, (simulation lists).Reachable session ∧ ¬session.InOrder lists := by
  obtain ⟨_, _, scheduled, executions, _, _, reachable, same, zero⟩ :=
    exists_atZero (2 ^ 32 - 6)
  have after := ((((((reachable.step (atZero_scheduleNow [] (by decide : 2 ≠ 0))).step
    (atZero_scheduleNow _ (by decide : 3 ≠ 0))).step
    (atZero_eventReturns _)).step (atZero_processOneEvent 3 _ [immediate 2 _])).step
    (atZero_eventReturns _)).step (atZero_processOneEvent 2 _ []))
  refine ⟨_, after, fun inOrder => ?_⟩
  have all : ∀ a b uidA uidB, Agenda.ofTime Event.time 0 (scheduled.map Appointment.event ++
      [immediate a uidA, immediate b uidB]) =
        scheduled.map Appointment.event ++ [immediate a uidA, immediate b uidB] := by
    intro a b uidA uidB
    refine filter_eq_self.mpr fun event member => decide_eq_true ?_
    rcases mem_append.mp member with old | late
    · exact zero event old
    · rcases mem_pair.mp late with rfl | rfl <;> rfl
  have ordered := inOrder.fifo 0
  simp only [atZero, map_append, map_cons, map_nil, same, append_assoc, singleton_append, all] at ordered
  have swapped := append_cancel_left (ordered.eq_of_length (by simp only [length_append, length_cons]))
  exact absurd (congrArg Event.impl (List.cons.inj swapped).1) (by decide)

end ListScheduler

end Ns3.Core
