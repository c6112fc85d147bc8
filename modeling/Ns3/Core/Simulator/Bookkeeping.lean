import Ns3.Core.Simulator.ExecutionOrder

/-!
# The bookkeeping of events

Whether an event is still to come is computed from its id and the event that runs, and
how many there are is counted. Both agree with the events the scheduler holds as long
as the uids, the clock and the counter do not wrap around.
-/

namespace Ns3.Core

open Ns3.Semantics PriorityQueue DefaultSimulatorImpl List Nat

namespace Session

variable {Kind : Type} {Store : Kind -> Type} {schedulers : (kind : Kind) -> Scheduler (Store kind)}
  {Represents : (kind : Kind) -> Store kind -> Multiset Event -> Prop}

/-- The scheduler holds the waiting events, an id has expired unless its event waits and
has not been cancelled, the events are counted, and `Remove` and `Cancel` of an event
that has expired or does not wait change nothing. -/
structure BooksKept (schedulers : (kind : Kind) -> Scheduler (Store kind))
    (Represents : (kind : Kind) -> Store kind -> Multiset Event -> Prop)
    (session : Session Store) : Prop where
  held : Represents session.sim.kind session.sim.events session.waiting
  expiry : ∀ id ∈ session.ids, session.sim.isExpired id = false ↔
    id.event ∈ session.waiting ∧ id.impl ∉ session.sim.cancelled
  count : session.sim.unscheduledEvents.toInt = session.waiting.card
  inert : ∀ id ∈ session.ids, (session.sim.isExpired id = true ∨ id.event ∉ session.waiting) ->
    session.sim.remove schedulers id = some session.sim ∧ session.sim.cancel id = session.sim

/-- What keeps the books: fewer than 2³¹ events are held, and the time of an event whose
id is returned is not past the last tick. -/
structure Countable (session : Session Store) (action : Action Kind) : Prop where
  room : ∀ appointment, session.arrival action = some appointment -> session.waiting.card + 1 < 2 ^ 31
  ahead : action.returnsId -> ∀ appointment, session.arrival action = some appointment -> appointment.due < 2 ^ 64

instance (session : Session Store) (action : Action Kind) : Decidable (Countable session action) :=
  decidable_of_iff (∀ appointment ∈ (session.arrival action).toList, session.waiting.card + 1 < 2 ^ 31 ∧
      (action.returnsId -> appointment.due < 2 ^ 64))
    (by
      simp only [Option.mem_toList]
      exact ⟨fun both => ⟨fun appointment enabled => (both appointment enabled).1,
          fun returns appointment enabled => (both appointment enabled).2 returns⟩,
        fun countable appointment enabled => ⟨countable.room appointment enabled,
          fun returns => countable.ahead returns appointment enabled⟩⟩)

/-- The event of an id is over for the simulator. -/
def Past (sim : DefaultSimulatorImpl Store) (id : EventId) : Prop :=
  id.ts.toNat < sim.currentTs.toNat ∨
    (id.ts = sim.currentTs ∧ id.uid.toNat ≤ sim.currentUid.toNat) ∨ id.impl ∈ sim.cancelled

/-- The event of a returned id waits for a time to come, or is over. -/
structure Tracked (session : Session Store) (id : EventId) : Prop where
  nonnull : id.impl ≠ 0
  scheduled : id.uid ≠ destroyUid
  old : id.uid.toNat < session.sim.uid.toNat
  place : (id.event ∈ session.waiting ∧ session.sim.currentTs.toNat ≤ id.ts.toNat) ∨
    (id.event ∉ session.waiting ∧ Past session.sim id)

/-- What relates the uids, the clock and the counter to the waiting events. -/
structure Booked (Represents : (kind : Kind) -> Store kind -> Multiset Event -> Prop)
    (session : Session Store) : Prop extends Consistent Represents session where
  uid : session.sim.uid.toNat = 4 + session.assigned
  below : ∀ event ∈ session.waiting, event.key.uid.toNat < session.sim.uid.toNat
  current : session.sim.currentUid.toNat < session.sim.uid.toNat
  later : ∀ event ∈ session.waiting, event.key.ts = session.sim.currentTs ->
    session.sim.currentUid.toNat < event.key.uid.toNat
  tracked : ∀ id ∈ session.ids, Tracked session id
  count : session.sim.unscheduledEvents.toInt = session.waiting.card

variable {id : EventId}

theorem isExpired_eq_false_iff {sim : DefaultSimulatorImpl Store}
    (nonnull : id.impl ≠ 0) (scheduled : id.uid ≠ destroyUid) : sim.isExpired id = false ↔ ¬Past sim id := by
  rw [isExpired, if_neg scheduled, Past]
  simp only [Bool.or_eq_false_iff, Bool.and_eq_false_iff, beq_eq_false_iff_ne, ne_eq, nonnull,
    not_false_eq_true, decide_eq_false_iff_not, isCancelled, contains_eq_mem, true_and,
    UInt64.lt_iff_toNat_lt, UInt32.le_iff_toNat_le, not_or, not_and_or, and_assoc]

variable {session next : Session Store}

/-- A live id is that of a waiting event that has not been cancelled. -/
theorem Tracked.isExpired_iff (tracked : Tracked session id)
    (later : ∀ event ∈ session.waiting, event.key.ts = session.sim.currentTs ->
      session.sim.currentUid.toNat < event.key.uid.toNat) :
    session.sim.isExpired id = false ↔
      id.event ∈ session.waiting ∧ id.impl ∉ session.sim.cancelled := by
  rw [isExpired_eq_false_iff tracked.nonnull tracked.scheduled]
  rcases tracked.place with ⟨waits, notPast⟩ | ⟨gone, past⟩
  · have after := later id.event waits
    constructor
    · intro live
      exact ⟨waits, fun cancelled => live (.inr (.inr cancelled))⟩
    · rintro ⟨-, live⟩ (earlier | ⟨same, before⟩ | cancelled)
      · omega
      · exact absurd (after same) (not_lt.mpr before)
      · exact live cancelled
  · exact iff_of_false (fun live => live past) fun both => gone both.1

theorem toInt_add_one {count : Int32} {held : Nat} (counted : count.toInt = held)
    (room : held + 1 < 2 ^ 31) : (count + 1).toInt = (held + 1 : Nat) := by
  rw [Int32.toInt_add, counted]
  have : (1 : Int32).toInt = 1 := rfl
  rw [this, Int.bmod_eq_of_le (by omega) (by omega)]
  rfl

theorem toInt_sub_one {count : Int32} {held : Nat} (counted : count.toInt = (held + 1 : Nat)) :
    (count - 1).toInt = held := by
  have room := count.toInt_lt
  rw [Int32.toInt_sub, counted]
  have : (1 : Int32).toInt = 1 := rfl
  rw [this, Int.bmod_eq_of_le (by omega) (by omega)]
  omega

theorem booked_start (correct : ∀ kind, Implements (schedulers kind) Event.uid Event.rank
    (Represents kind) fun _ _ => True) (kind : Kind) :
    Booked Represents (start schedulers kind) where
  toConsistent := consistent_start correct kind
  uid := rfl
  below := by simp [start]
  current := (by decide : (0 : UInt32).toNat < validUid.toNat)
  later := by simp [start]
  tracked := by simp [start]
  count := rfl

theorem Booked.card_erase (booked : Booked Represents session) {event : Event} (mem : event ∈ session.waiting) :
    (session.sim.unscheduledEvents - 1).toInt = (session.waiting.erase event).card := by
  refine toInt_sub_one ?_
  rw [Multiset.card_erase_add_one mem]
  exact booked.count

variable {action : Action Kind}

theorem Booked.sound (booked : Booked Represents session) : Sound session action where
  fresh := by
    intro appointment enabled other mem same
    have older := booked.below other mem
    rw [← arrival_uid enabled] at older
    exact absurd (congrArg UInt32.toNat same) (Nat.ne_of_lt older)
  present := by
    intro id enabled
    obtain ⟨-, known, scheduled, live⟩ := removal_eq_some enabled
    rcases known with returned | destroys | null
    · exact ((booked.tracked id returned).isExpired_iff booked.later |>.mp live).1
    · exact absurd destroys scheduled
    · rw [isExpired, if_neg scheduled, null] at live
      simp at live

theorem Tracked.mono (tracked : Tracked session id) (uids : session.sim.uid.toNat ≤ next.sim.uid.toNat)
    (waits : id.event ∈ session.waiting -> session.sim.currentTs.toNat ≤ id.ts.toNat ->
      (id.event ∈ next.waiting ∧ next.sim.currentTs.toNat ≤ id.ts.toNat) ∨
        (id.event ∉ next.waiting ∧ Past next.sim id))
    (past : id.event ∉ session.waiting -> Past session.sim id -> id.event ∉ next.waiting ∧
      Past next.sim id) : Tracked next id where
  nonnull := tracked.nonnull
  scheduled := tracked.scheduled
  old := lt_of_lt_of_le tracked.old uids
  place := tracked.place.elim (fun both => waits both.1 both.2) fun both =>
    .inr (past both.1 both.2)

theorem toNat_uid_succ (booked : Booked Represents session) (few : session.assigned + 1 < 2 ^ 32 - 4) :
    (session.sim.uid + 1).toNat = session.sim.uid.toNat + 1 := by
  have uid := booked.uid
  rw [UInt32.toNat_add, UInt32.toNat_one, mod_eq_of_lt (by omega)]

/-- Whoever holds an id after an arrival held it before, or has just got it. -/
theorem Booked.tracked_arrival {appointment : Appointment} (booked : Booked Represents session)
    (countable : Countable session action) (enabled : session.arrival action = some appointment)
    (pos : action.returnsId -> appointment.event.impl ≠ 0 ∧ session.sim.currentTs.toNat ≤ appointment.due)
    (nextUid : (session.sim.uid + 1).toNat = session.sim.uid.toNat + 1)
    (returned : id ∈ if action.returnsId then session.ids ++ [appointment.event.id] else session.ids)
    (sim : next.sim.uid = session.sim.uid + 1) (clock : next.sim.currentTs = session.sim.currentTs)
    (waiting : next.waiting = appointment.event ::ₘ session.waiting)
    (past : Past session.sim id -> Past next.sim id) : Tracked next id := by
  have newUid := arrival_uid enabled
  have known : id ∈ session.ids ∨ (action.returnsId = true ∧ id = appointment.event.id) := by
    by_cases returns : action.returnsId = true
    · rw [if_pos returns, mem_append, mem_singleton] at returned
      exact returned.imp_right fun same => ⟨returns, same⟩
    · rw [if_neg returns] at returned
      exact .inl returned
  rcases known with before | ⟨returns, rfl⟩
  · have tracked := booked.tracked id before
    refine tracked.mono (by rw [sim, nextUid]; exact Nat.le_succ _) (fun waits notPast => ?_)
      fun gone expired => ⟨?_, past expired⟩
    · rw [waiting, clock]
      exact .inl ⟨Multiset.mem_cons_of_mem waits, notPast⟩
    · rw [waiting, Multiset.mem_cons, not_or]
      refine ⟨fun same => Nat.ne_of_lt tracked.old ?_, gone⟩
      rw [← newUid, ← same]
      rfl
  · have ticks := arrival_ts enabled
    obtain ⟨nonnull, notPast⟩ := pos returns
    rw [Int.emod_eq_of_lt (by omega) (countable.ahead returns appointment enabled)] at ticks
    refine ⟨nonnull, fun destroys => ?_, ?_, .inl ⟨?_, ?_⟩⟩
    · have uid := booked.uid
      rw [← newUid, show appointment.event.key.uid = destroyUid from destroys] at uid
      exact absurd uid (by rw [show destroyUid.toNat = 2 from rfl]; omega)
    · rw [sim, nextUid, ← newUid]
      exact Nat.lt_succ_self _
    · rw [waiting]
      exact Multiset.mem_cons_self _ _
    · rw [clock]
      show session.sim.currentTs.toNat ≤ appointment.event.key.ts.toNat
      omega

/-- The events left at the time of the one taken out come after it. -/
theorem first_of_taken {waiting : Multiset Event} {event other : Event}
    (distinct : (waiting.map Event.uid).Nodup) (least : Least Event.rank event waiting)
    (mem : other ∈ waiting.erase event) (same : other.key.ts = event.key.ts) :
    event.key.uid.toNat < other.key.uid.toNat := by
  obtain ⟨ne, known⟩ := distinct.of_map.mem_erase_iff.mp mem
  have uids : event.key.uid.toNat ≠ other.key.uid.toNat := fun equal =>
    ne (Multiset.inj_on_of_nodup_map distinct other known event least.1 (UInt32.toNat_inj.mp equal.symm))
  rcases Prod.Lex.toLex_le_toLex.mp (least.2 other known) with earlier | ⟨-, before⟩
  · exact absurd (congrArg UInt64.toNat same) (ne_of_gt earlier)
  · exact lt_of_le_of_ne before uids

theorem Booked.step (correct : ∀ kind, Implements (schedulers kind) Event.uid Event.rank
    (Represents kind) fun _ _ => True) {session next : Session Store} {action : Action Kind}
    (booked : Booked Represents session) (countable : Countable session action)
    (few : next.assigned < 2 ^ 32 - 4) (effect : session.Effect schedulers action next) :
    Booked Represents next := by
  have consistent := booked.toConsistent.step correct booked.sound effect
  cases effect with
  | @arrives appointment events transferring enabled inserted pos =>
    have nextUid := toNat_uid_succ booked few
    have newUid := congrArg UInt32.toNat (arrival_uid enabled)
    refine ⟨consistent, ?_, ?_, ?_, ?_, ?_, ?_⟩
    · rw [nextUid, booked.uid, add_assoc]
    · intro event mem
      rw [nextUid]
      rcases Multiset.mem_cons.mp mem with rfl | old
      · rw [newUid]
        exact lt_succ_self _
      · exact lt_succ_of_lt (booked.below event old)
    · rw [nextUid]
      exact lt_succ_of_lt booked.current
    · intro event mem same
      rcases Multiset.mem_cons.mp mem with rfl | old
      · rw [newUid]
        exact booked.current
      · exact booked.later event old same
    · intro held returned
      exact booked.tracked_arrival countable enabled pos nextUid returned rfl rfl rfl id
    · rw [Multiset.card_cons]
      exact toInt_add_one booked.count (countable.room appointment enabled)
  | @executes event events processes taken nonempty onTime =>
    have least := booked.taken correct taken nonempty
    have notPast : session.sim.currentTs.toNat ≤ event.key.ts.toNat := by
      rw [UInt64.lt_iff_toNat_lt] at onTime
      exact not_lt.mp onTime
    have nodup := booked.distinct.of_map
    refine ⟨consistent, booked.uid, fun other mem =>
      booked.below other (Multiset.mem_of_mem_erase mem), booked.below event least.1, ?_, ?_,
      booked.card_erase least.1⟩
    · intro other mem same
      exact first_of_taken booked.distinct least mem same
    · intro id returned
      refine (booked.tracked id returned).mono (le_refl _) (fun waits _ => ?_)
        fun gone past => ⟨fun mem => gone (Multiset.mem_of_mem_erase mem), ?_⟩
      · by_cases same : id.event = event
        · subst same
          exact .inr ⟨nodup.notMem_erase, .inr (.inl ⟨rfl, le_refl _⟩)⟩
        · exact .inl ⟨(Multiset.mem_erase_of_ne same).mpr waits,
            Event.ts_le_of_rank (least.2 id.event waits)⟩
      · rcases past with earlier | ⟨same, before⟩ | cancelled
        · exact .inl (lt_of_lt_of_le earlier notPast)
        · by_cases stays : event.key.ts = session.sim.currentTs
          · have after := booked.later event least.1 stays
            exact .inr (.inl ⟨same.trans stays.symm, before.trans (le_of_lt after)⟩)
          · have advances := lt_of_le_of_ne notPast fun equal =>
              stays (UInt64.toNat_inj.mp equal.symm)
            exact .inl ((congrArg UInt64.toNat same).trans_lt advances)
        · exact .inr (.inr cancelled)
  | @removes id events enabled removed =>
    have present := booked.sound.present id enabled
    refine ⟨consistent, booked.uid, fun other mem =>
      booked.below other (Multiset.mem_of_mem_erase mem), booked.current, fun other mem =>
      booked.later other (Multiset.mem_of_mem_erase mem), ?_, booked.card_erase present⟩
    intro other returned
    refine (booked.tracked other returned).mono (le_refl _) (fun waits notPast => ?_)
      fun gone past => ⟨fun mem => gone (Multiset.mem_of_mem_erase mem),
        past.imp_right (Or.imp_right (mem_cons_of_mem _))⟩
    by_cases same : other.event = id.event
    · rw [same]
      refine .inr ⟨booked.distinct.of_map.notMem_erase, .inr (.inr ?_)⟩
      rw [show other.impl = id.impl from congrArg Event.impl same]
      exact mem_cons_self
    · exact .inl ⟨(Multiset.mem_erase_of_ne same).mpr waits, notPast⟩
  | @cancels id =>
    refine ⟨consistent, booked.uid, booked.below, booked.current, booked.later, ?_, booked.count⟩
    intro other returned
    exact (booked.tracked other returned).mono (le_refl _) (fun waits notPast =>
      .inl ⟨waits, notPast⟩) fun gone past => ⟨gone, past.imp_right (Or.imp_right
        (mem_cons_of_mem _))⟩
  | exchanges =>
    refine ⟨consistent, booked.uid, booked.below, booked.current, booked.later, ?_, booked.count⟩
    intro id returned
    exact (booked.tracked id returned).mono (le_refl _) (fun waits notPast =>
      .inl ⟨waits, notPast⟩) fun gone past => ⟨gone, past⟩
  | reserves =>
    have nextUid := toNat_uid_succ booked few
    refine ⟨consistent, by rw [nextUid, booked.uid, add_assoc], ?_, ?_, booked.later, ?_,
      booked.count⟩
    · intro event mem
      rw [nextUid]
      exact lt_succ_of_lt (booked.below event mem)
    · rw [nextUid]
      exact lt_succ_of_lt booked.current
    · intro id returned
      exact (booked.tracked id returned).mono (by rw [nextUid]; exact le_succ _)
        (fun waits notPast => .inl ⟨waits, notPast⟩) fun gone past => ⟨gone, past⟩
  | arranges =>
    refine ⟨consistent, booked.uid, booked.below, booked.current, booked.later, ?_, booked.count⟩
    intro id returned
    exact (booked.tracked id returned).mono (le_refl _) (fun waits notPast =>
      .inl ⟨waits, notPast⟩) fun gone past => ⟨gone, past⟩

theorem assigned_le (effect : session.Effect schedulers action next) : session.assigned ≤ next.assigned := by
  cases effect with
  | arrives | reserves => exact le_succ _
  | _ => exact le_refl _

theorem Booked.booksKept (booked : Booked Represents session) : session.BooksKept schedulers Represents where
  held := booked.represents
  expiry := fun id returned => (booked.tracked id returned).isExpired_iff booked.later
  count := booked.count
  inert := by
    intro id returned done
    have tracked := booked.tracked id returned
    have expired : session.sim.isExpired id = true := by
      rcases done with expired | gone
      · exact expired
      · rw [← Bool.not_eq_false, tracked.isExpired_iff booked.later]
        exact fun live => gone live.1
    constructor
    · rw [remove, if_neg tracked.scheduled, if_pos expired]
    · rw [cancel, if_pos expired]

/-- The books are kept in every run whose steps are countable, while uids last. -/
theorem keeps_books (correct : ∀ kind, Implements (schedulers kind) Event.uid Event.rank
    (Represents kind) fun _ _ => True) {trace : List (Session Store × Action Kind)}
    {session : Session Store} (run : (simulation schedulers).Run trace session)
    (few : session.assigned < 2 ^ 32 - 4) (countable : ∀ entry ∈ trace, Countable entry.1 entry.2) :
    session.BooksKept schedulers Represents := by
  have booked : session.assigned < 2 ^ 32 - 4 -> Booked Represents session := by
    refine run.invariant_of_guard (fun session => session.assigned < 2 ^ 32 - 4 ->
      Booked Represents session) Countable ?_ ?_ countable
    · rintro initial ⟨kind, rfl⟩ -
      exact booked_start correct kind
    · intro before action after holds guarded transition few
      have effect := effect_of_step transition
      exact (holds (Nat.lt_of_le_of_lt (assigned_le effect) few)).step correct guarded few effect
  exact (booked few).booksKept

end Session

section ListScheduler

/-- Events cancelled and removed, from outside and from within, one by itself. -/
def cancellations : List (Action Unit) :=
  [.schedule 5 1, .schedule 5 2, .schedule 5 3, .schedule 9 4, .run, .processOneEvent,
    .cancel ⟨1, 5, 0xffffffff, 4⟩, .remove ⟨1, 5, 0xffffffff, 4⟩, .cancel ⟨2, 5, 0xffffffff, 5⟩,
    .remove ⟨3, 5, 0xffffffff, 6⟩, .remove ⟨3, 5, 0xffffffff, 6⟩, .setScheduler (), .scheduleNow 7,
    .eventReturns, .processOneEvent]

theorem cancellations_keep_books : ∃ session,
    (simulation lists).exec (Session.start lists ()) cancellations = some session ∧
      session.BooksKept lists fun _ => ListScheduler.Represents := by
  have executed : ((simulation lists).exec (Session.start lists ()) cancellations).map
      (fun session => decide (session.assigned < 2 ^ 32 - 4)) = some true := by
    decide +kernel
  obtain ⟨session, success, few⟩ := Option.map_eq_some_iff.mp executed
  have initial : (simulation lists).Initial (Session.start lists ()) := ⟨(), rfl⟩
  exact ⟨session, success, Session.keeps_books (fun _ => ListScheduler.implements)
    (System.run_of_exec initial success) (of_decide_eq_true few) (by decide +kernel)⟩

/-- A program that schedules an event for the last representable time, an event that another
thread schedules as far ahead again, and one two ticks later. -/
def pastLastTick : List (Action Unit) :=
  [.schedule (2 ^ 63 - 1) 1, .run, .processOneEvent, .scheduleFromThread 0 (2 ^ 63 - 1) 2,
    .eventReturns, .transfer, .processOneEvent, .schedule 2 3]

/-- The time of the last event is 0 again: its id has expired while it waits. -/
theorem wrapped_time_expires : ∃ session : ListSession, (simulation lists).Reachable session ∧
    session.assigned < 2 ^ 32 - 4 ∧ ¬session.BooksKept lists fun _ => ListScheduler.Represents := by
  have executed : ((simulation lists).exec (Session.start lists ()) pastLastTick).map
      (fun session => decide (session.assigned = 3 ∧ (⟨3, 0, 0, 6⟩ : EventId) ∈ session.ids ∧
        session.sim.isExpired ⟨3, 0, 0, 6⟩ = true ∧ (⟨3, ⟨0, 6, 0⟩⟩ : Event) ∈ session.waiting ∧
          3 ∉ session.sim.cancelled)) = some true := by
    decide +kernel
  obtain ⟨session, success, facts⟩ := Option.map_eq_some_iff.mp executed
  obtain ⟨assigned, returned, expired, waits, live⟩ := of_decide_eq_true facts
  refine ⟨session, System.reachable_of_exec ⟨(), rfl⟩ _ success, by omega, fun kept => ?_⟩
  have pending := (kept.expiry _ returned).mpr ⟨waits, live⟩
  exact Bool.false_ne_true (pending.symm.trans expired)

end ListScheduler

end Ns3.Core
