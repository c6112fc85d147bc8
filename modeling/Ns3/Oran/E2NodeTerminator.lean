import Mathlib.Data.List.Basic
import Ns3.Semantics.EventQueue
import Ns3.Semantics.Run

/-!
# The E2 node terminator

`OranE2NodeTerminator` registers its node again and again and sends the stored reports in a chain of
`DoSendReports` events. The chain and every registration response schedule the next send.
`sendChain_throughout_iff` says in which runs there is only one chain and `Deactivate` ends it:
those without a second response in an active period.

What the RIC answers, and when, is up to the environment, and so are the reporters, which store
reports at any time.
-/

namespace Ns3.Oran.E2NodeTerminator

open Ns3.Semantics Option EventQueue

/-- What the reporters and random variables deliver in one step. -/
structure Draws (R : Type) where
  /-- The reports stored on `NotifyRegistrationComplete`. -/
  initialReports : List R
  /-- `m_registrationIntervalRv`. -/
  registrationInterval : Nat
  /-- `m_sendIntervalRv`. -/
  sendInterval : Nat
  /-- `m_transmissionDelayRv`, for each report of a batch. -/
  transmissionDelay : R -> Nat
  /-- `m_transmissionDelayRv`, for a message without report. -/
  requestDelay : Nat

/-- The events the terminator schedules: its own, and messages to the RIC. -/
inductive Callback (R : Type) where
  | register
  | doSendReports
  | receiveRegistrationRequest (e2NodeId : UInt64)
  | receiveDeregistrationRequest (e2NodeId : UInt64)
  | receiveReport (report : R)

/-- `OranE2NodeTerminator` with the simulator. `responded` records whether a
registration response was received in the current active period; no function
reads it. -/
structure Terminator (R : Type) where
  sim : EventQueue (Callback R)
  /-- Whether `m_nearRtRic` is set. -/
  nearRtRic : Bool
  active : Bool
  e2NodeId : UInt64
  reports : List R
  registrationEvent : Nat
  sendEvent : Nat
  responded : Bool

variable {R : Type}

variable (terminator : Terminator R)

/-- `OranE2NodeTerminator::CancelNextRegistration`. -/
def cancelNextRegistration : Terminator R :=
  if terminator.sim.isPending terminator.registrationEvent then
    { terminator with sim := terminator.sim.cancel terminator.registrationEvent }
  else
    terminator

/-- `OranE2NodeTerminator::CancelNextSend`. -/
def cancelNextSend : Terminator R :=
  if terminator.sim.isPending terminator.sendEvent then
    { terminator with sim := terminator.sim.cancel terminator.sendEvent }
  else
    terminator

/-- Schedule a message to the RIC. -/
def transmit (delay : Nat) (message : Callback R) : Terminator R :=
  { terminator with sim := (terminator.sim.schedule delay message).1 }

variable (draws : Draws R)

/-- `OranE2NodeTerminator::ScheduleNextSend`. -/
def scheduleNextSend : Terminator R :=
  if terminator.active then
    let scheduled := terminator.sim.schedule draws.sendInterval .doSendReports
    { terminator with sim := scheduled.1, sendEvent := scheduled.2 }
  else
    terminator

/-- `OranE2NodeTerminator::DoSendReports`. -/
def doSendReports : Terminator R :=
  if terminator.active then
    let sent := terminator.reports.foldl (fun current report => transmit current (draws.transmissionDelay report)
        (.receiveReport report)) terminator
    scheduleNextSend { sent with reports := [] } draws
  else
    terminator

/-- `OranE2NodeTerminator::Register`. -/
def register : Terminator R :=
  if terminator.active then
    let requested := transmit (cancelNextRegistration terminator) draws.requestDelay
      (.receiveRegistrationRequest terminator.e2NodeId)
    let scheduled := requested.sim.schedule draws.registrationInterval .register
    { requested with sim := scheduled.1, registrationEvent := scheduled.2 }
  else
    terminator

/-- `OranE2NodeTerminator::Deregister`. -/
def deregister : Terminator R :=
  transmit (cancelNextRegistration terminator) draws.requestDelay (.receiveDeregistrationRequest terminator.e2NodeId)

/-- `OranE2NodeTerminator::Deactivate`. -/
def deactivate : Terminator R :=
  if terminator.active then
    { deregister (cancelNextSend terminator) draws with active := false, responded := false }
  else
    terminator

/-- `OranE2NodeTerminator::Activate`. -/
def activate : Terminator R :=
  if terminator.nearRtRic then
    if terminator.active then terminator
    else register { terminator with active := true, reports := [] } draws
  else
    deactivate { terminator with active := false } draws

/-- `OranE2NodeTerminator::StoreReport`. -/
def storeReport (report : R) : Terminator R :=
  if terminator.active then
    { terminator with reports := terminator.reports ++ [report] }
  else
    terminator

/-- `OranE2NodeTerminator::ReceiveDeregistrationResponse`. -/
def receiveDeregistrationResponse : Terminator R :=
  { terminator with e2NodeId := 0 }

/-- `OranE2NodeTerminator::ReceiveRegistrationResponse`. -/
def receiveRegistrationResponse (e2NodeId : UInt64) (draws : Draws R) : Terminator R :=
  if terminator.active then
    let identified :=
      if terminator.e2NodeId != e2NodeId then
        let changed := { terminator with e2NodeId := e2NodeId }
        if 0 < e2NodeId then draws.initialReports.foldl storeReport changed else changed
      else
        terminator
    { scheduleNextSend identified draws with responded := true }
  else
    terminator

/-! ## The system -/

/-- The calls made from outside between two simulator events. -/
inductive Call (R : Type) where
  | activate (draws : Draws R)
  | deactivate (draws : Draws R)
  | receiveRegistrationResponse (e2NodeId : UInt64) (draws : Draws R)
  | receiveDeregistrationResponse (e2NodeId : UInt64)
  | storeReport (report : R)

/-- One step of the simulation: the next event of the simulator, or a call made
at an instant up to the next event. -/
inductive Action (R : Type) where
  | fire (draws : Draws R)
  | call (time : Int) (call : Call R)

/-- Run the callback of an event. -/
def invoke : Callback R -> Terminator R
  | .register => register terminator draws
  | .doSendReports => doSendReports terminator draws
  | .receiveRegistrationRequest _ => terminator
  | .receiveDeregistrationRequest _ => terminator
  | .receiveReport _ => terminator

/-- Carry out a call. -/
def perform : Call R -> Terminator R
  | .activate draws => activate terminator draws
  | .deactivate draws => deactivate terminator draws
  | .receiveRegistrationResponse e2NodeId draws =>
    receiveRegistrationResponse terminator e2NodeId draws
  | .receiveDeregistrationResponse _ => receiveDeregistrationResponse terminator
  | .storeReport report => storeReport terminator report

/-- The effect of an action. -/
def step : Action R -> Option (Terminator R)
  | .fire draws => terminator.sim.takeNext?.map fun taken =>
    invoke { terminator with sim := taken.2 } draws taken.1.callback
  | .call time call => (terminator.sim.advance? time).map fun sim =>
    perform { terminator with sim := sim } call

/-- A terminator that was constructed and configured, but never activated. -/
structure Constructed (terminator : Terminator R) : Prop where
  nothingScheduled : terminator.sim.entries = []
  inactive : terminator.active = false
  noRegistrationEvent : terminator.registrationEvent = 0
  noSendEvent : terminator.sendEvent = 0
  notResponded : terminator.responded = false

/-- The terminator as a labelled program. -/
def system (R : Type) : System (Terminator R) (Action R) where
  Initial := Constructed
  step := step

/-! ## The chain of sends -/

/-- The events of the send chain. -/
def isSend : Callback R -> Bool
  | .doSendReports => true
  | _ => false

/-- The number of pending `DoSendReports`. -/
def sends : Nat :=
  terminator.sim.pendingCount isSend

/-- At most one send is pending, and none before a registration response was
received in the active period. -/
structure SendChain (terminator : Terminator R) : Prop where
  atMostOne : sends terminator ≤ 1
  noneBefore : terminator.responded = false -> sends terminator = 0

/-- The step is no second registration response of an active period. -/
def FirstResponse (action : Action R) : Prop :=
  ∀ time e2NodeId draws, action = .call time (.receiveRegistrationResponse e2NodeId draws) ->
    terminator.active = true -> terminator.responded = false

/-- What the steps rely on: the stored ids name events of their own kind, and the
stored send is the only one. -/
structure Chained (terminator : Terminator R) : Prop where
  send : terminator.sim.Owns terminator.sendEvent .doSendReports
  registration : terminator.sim.Owns terminator.registrationEvent .register
  sole : terminator.sim.Sole terminator.sendEvent .doSendReports
  respondedActive : terminator.responded = true -> terminator.active = true
  reachesRic : terminator.active = true -> terminator.nearRtRic = true

variable {terminator next : Terminator R} {action : Action R} {draws : Draws R}

/-- A step that neither starts, continues nor ends the chain. -/
structure Untouched (terminator next : Terminator R) : Prop where
  sends : sends next = sends terminator
  responded : next.responded = terminator.responded
  chained : Chained terminator -> Chained next

namespace Untouched

theorem sendChain_iff (untouched : Untouched terminator next) : SendChain next ↔ SendChain terminator := by
  constructor
  · rintro ⟨atMostOne, noneBefore⟩
    rw [untouched.sends] at atMostOne noneBefore
    exact ⟨atMostOne, untouched.responded ▸ noneBefore⟩
  · rintro ⟨atMostOne, noneBefore⟩
    constructor
    · rwa [untouched.sends]
    · rwa [untouched.sends, untouched.responded]

theorem trans {last : Terminator R} (first : Untouched terminator next)
    (second : Untouched next last) : Untouched terminator last where
  sends := second.sends.trans first.sends
  responded := second.responded.trans first.responded
  chained := second.chained ∘ first.chained

theorem refl (terminator : Terminator R) : Untouched terminator terminator := ⟨rfl, rfl, id⟩

theorem of_same (sim : next.sim = terminator.sim) (sendEvent : next.sendEvent = terminator.sendEvent)
    (registrationEvent : next.registrationEvent = terminator.registrationEvent)
    (responded : next.responded = terminator.responded) (active : next.active = terminator.active)
    (nearRtRic : next.nearRtRic = terminator.nearRtRic) : Untouched terminator next where
  sends := by rw [E2NodeTerminator.sends, E2NodeTerminator.sends, sim]
  responded := responded
  chained chained := {
    send := by rw [sim, sendEvent]; exact chained.send
    registration := by rw [sim, registrationEvent]; exact chained.registration
    sole := by rw [sim, sendEvent]; exact chained.sole
    respondedActive := by rw [responded, active]; exact chained.respondedActive
    reachesRic := by rw [active, nearRtRic]; exact chained.reachesRic }

theorem transmit (terminator : Terminator R) (delay : Nat) {message : Callback R}
    (noSend : isSend message = false) : Untouched terminator (transmit terminator delay message) where
  sends := by simp [E2NodeTerminator.transmit, E2NodeTerminator.sends, noSend]
  responded := rfl
  chained chained := {
    send := chained.send.schedule delay message
    registration := chained.registration.schedule delay message
    sole := chained.sole.schedule (by rintro rfl; cases noSend) delay
    respondedActive := chained.respondedActive
    reachesRic := chained.reachesRic }

end Untouched

theorem cancelNextRegistration_eq (terminator : Terminator R) : cancelNextRegistration terminator =
      { terminator with sim := terminator.sim.cancel terminator.registrationEvent } := by
  unfold cancelNextRegistration
  split
  · rfl
  · next idle => rw [cancel_of_not_pending (by simpa using idle)]

theorem cancelNextSend_eq (terminator : Terminator R) : cancelNextSend terminator =
      { terminator with sim := terminator.sim.cancel terminator.sendEvent } := by
  unfold cancelNextSend
  split
  · rfl
  · next idle => rw [cancel_of_not_pending (by simpa using idle)]

theorem sends_cancel_registration (chained : Chained terminator) :
    (terminator.sim.cancel terminator.registrationEvent).pendingCount isSend = sends terminator := by
  apply pendingCount_cancel_of_other
  intro entry mem same
  rw [chained.registration.2 entry mem same]
  rfl

theorem cancelNextRegistration_untouched (chained : Chained terminator) :
    Untouched terminator (cancelNextRegistration terminator) := by
  have sends := sends_cancel_registration chained
  rw [cancelNextRegistration_eq]
  exact {
    sends := sends
    responded := rfl
    chained := fun _ => {
      send := chained.send.cancel _
      registration := chained.registration.cancel _
      sole := chained.sole.cancel _
      respondedActive := chained.respondedActive
      reachesRic := chained.reachesRic } }

theorem scheduleRegistration_untouched (terminator : Terminator R) (delay : Nat) :
    Untouched terminator { terminator with
      sim := (terminator.sim.schedule delay .register).1
      registrationEvent := (terminator.sim.schedule delay .register).2 } := by
  exact {
    sends := by simp [E2NodeTerminator.sends, isSend]
    responded := rfl
    chained := fun chained => {
      send := chained.send.schedule delay _
      registration := owns_schedule_self delay _
      sole := chained.sole.schedule (by simp) delay
      respondedActive := chained.respondedActive
      reachesRic := chained.reachesRic } }

theorem register_untouched (chained : Chained terminator) (draws : Draws R) :
    Untouched terminator (register terminator draws) := by
  unfold register
  split
  · exact ((cancelNextRegistration_untouched chained).trans (.transmit _ _ rfl)).trans
      (scheduleRegistration_untouched _ _)
  · exact .refl terminator

theorem storeReport_untouched (terminator : Terminator R) (report : R) :
    Untouched terminator (storeReport terminator report) := by
  unfold storeReport
  split
  · exact .of_same rfl rfl rfl rfl rfl rfl
  · exact .refl terminator

theorem storeReport_active (terminator : Terminator R) (report : R) :
    (storeReport terminator report).active = terminator.active := by
  unfold storeReport
  split <;> rfl

theorem foldl_storeReport (reports : List R) (terminator : Terminator R) :
    Untouched terminator (reports.foldl storeReport terminator) ∧
      (reports.foldl storeReport terminator).active = terminator.active := by
  induction reports generalizing terminator with
  | nil => exact ⟨.refl terminator, rfl⟩
  | cons report rest ih =>
    obtain ⟨untouched, active⟩ := ih (storeReport terminator report)
    exact ⟨(storeReport_untouched terminator report).trans untouched,
      active.trans (storeReport_active terminator report)⟩

theorem foldl_transmit (reports : List R) (delay : R -> Nat) (terminator : Terminator R) :
    let sent := reports.foldl (fun current report =>
      transmit current (delay report) (.receiveReport report)) terminator
    Untouched terminator sent ∧ sent.active = terminator.active := by
  induction reports generalizing terminator with
  | nil => exact ⟨.refl terminator, rfl⟩
  | cons report rest ih =>
    obtain ⟨untouched, active⟩ := ih (transmit terminator (delay report) (.receiveReport report))
    exact ⟨(Untouched.transmit terminator (delay report) rfl).trans untouched, active⟩

/-! ## Starting and ending the chain -/

theorem scheduleNextSend_eq (active : terminator.active = true) : scheduleNextSend terminator draws =
      { terminator with
        sim := (terminator.sim.schedule draws.sendInterval .doSendReports).1
        sendEvent := (terminator.sim.schedule draws.sendInterval .doSendReports).2 } := by
  simp [scheduleNextSend, active]

theorem sends_scheduleNextSend (active : terminator.active = true) :
    sends (scheduleNextSend terminator draws) = sends terminator + 1 := by
  simp [scheduleNextSend_eq active, sends, isSend]

theorem scheduleNextSend_sole (none : sends terminator = 0) (active : terminator.active = true) (draws : Draws R) :
    (scheduleNextSend terminator draws).sim.Sole (scheduleNextSend terminator draws).sendEvent .doSendReports := by
  rw [scheduleNextSend_eq active]
  intro entry mem same
  rcases mem_schedule.mp mem with old | rfl
  · have other := pendingCount_eq_zero.mp none entry old
    rw [same] at other
    cases other
  · rfl

theorem scheduleNextSend_chained (chained : Chained terminator) (active : terminator.active = true)
    (none : sends terminator = 0) : Chained { scheduleNextSend terminator draws with responded := true } := by
  have sole := scheduleNextSend_sole none active draws
  rw [scheduleNextSend_eq active] at sole ⊢
  exact {
    send := owns_schedule_self _ _
    registration := chained.registration.schedule _ _
    sole := sole
    respondedActive := fun _ => active
    reachesRic := chained.reachesRic }

theorem sends_cancelNextSend (chained : Chained terminator) : sends (cancelNextSend terminator) = 0 := by
  rw [cancelNextSend_eq]
  apply pendingCount_eq_zero.mpr
  intro entry mem
  obtain ⟨before, other⟩ := mem_cancel.mp mem
  cases callback : entry.callback with
  | doSendReports => exact absurd (chained.sole entry before callback) other
  | register => rfl
  | receiveRegistrationRequest e2NodeId => rfl
  | receiveDeregistrationRequest e2NodeId => rfl
  | receiveReport report => rfl

theorem deactivate_eq (active : terminator.active = true) : deactivate terminator draws = { terminator with
        sim := (((terminator.sim.cancel terminator.sendEvent).cancel
          terminator.registrationEvent).schedule draws.requestDelay
            (.receiveDeregistrationRequest terminator.e2NodeId)).1
        active := false
        responded := false } := by
  simp [deactivate, active, deregister, cancelNextRegistration_eq, cancelNextSend_eq, transmit]

theorem deactivate_chained (chained : Chained terminator) (active : terminator.active = true)
    (draws : Draws R) : Chained (deactivate terminator draws) ∧ sends (deactivate terminator draws) = 0 := by
  have cancelled := sends_cancelNextSend chained
  rw [cancelNextSend_eq] at cancelled
  rw [deactivate_eq active]
  refine ⟨?_, ?_⟩
  · exact {
      send := ((chained.send.cancel _).cancel _).schedule _ _
      registration := ((chained.registration.cancel _).cancel _).schedule _ _
      sole := ((chained.sole.cancel _).cancel _).schedule (by simp) _
      respondedActive := fun responded => by cases responded
      reachesRic := fun reactivated => by cases reactivated }
  · have none : ∀ entry ∈ (terminator.sim.cancel terminator.sendEvent).entries,
        isSend entry.callback = false := pendingCount_eq_zero.mp cancelled
    apply pendingCount_eq_zero.mpr
    intro entry mem
    rcases mem_schedule.mp mem with old | rfl
    · exact none entry (mem_cancel.mp old).1
    · rfl

theorem receiveRegistrationResponse_eq (active : terminator.active = true) (e2NodeId : UInt64) (draws : Draws R) :
    ∃ identified, Untouched terminator identified ∧ identified.active = true ∧
      receiveRegistrationResponse terminator e2NodeId draws =
        { scheduleNextSend identified draws with responded := true } := by
  unfold receiveRegistrationResponse
  rw [if_pos active]
  refine ⟨_, ?_, ?_, rfl⟩
  · split
    · have changed : Untouched terminator { terminator with e2NodeId := e2NodeId } :=
        .of_same rfl rfl rfl rfl rfl rfl
      split
      · exact changed.trans (foldl_storeReport draws.initialReports _).1
      · exact changed
    · exact .refl terminator
  · split
    · split
      · exact (foldl_storeReport draws.initialReports _).2.trans active
      · exact active
    · exact active

/-! ## Steps -/

/-- The invariant of a run: a chain that was started goes on. -/
structure Running (terminator : Terminator R) : Prop where
  chained : Chained terminator
  continues : terminator.responded = true -> 0 < sends terminator

theorem Untouched.running (untouched : Untouched terminator next) (running : Running terminator) : Running next where
  chained := untouched.chained running.chained
  continues := by
    rw [untouched.responded, untouched.sends]
    exact running.continues

variable {sim : EventQueue (Callback R)}

/-- Starting an event that is no send, and letting time pass, leave the chain
alone. -/
theorem takeNext_untouched {entry : Entry (Callback R)}
    (taken : terminator.sim.takeNext? = some (entry, sim)) (other : isSend entry.callback = false) :
    Untouched terminator { terminator with sim := sim } := by
  obtain ⟨_, _, _, uids, members⟩ := takeNext?_spec taken
  have subset : ∀ pending ∈ sim.entries, pending ∈ terminator.sim.entries :=
    fun pending mem => ((members pending).mp mem).1
  have count := pendingCount_takeNext isSend taken
  exact {
    sends := by simpa [E2NodeTerminator.sends, other] using count
    responded := rfl
    chained := fun chained => { chained with
      send := chained.send.of_subset uids subset
      registration := chained.registration.of_subset uids subset
      sole := chained.sole.of_subset subset } }

theorem advance_untouched {time : Int} (advanced : terminator.sim.advance? time = some sim) :
    Untouched terminator { terminator with sim := sim } := by
  obtain ⟨_, _, uids, members⟩ := advance?_spec advanced
  have subset : ∀ pending ∈ sim.entries, pending ∈ terminator.sim.entries :=
    fun pending mem => members ▸ mem
  exact {
    sends := by rw [sends, sends, pendingCount, pendingCount, members]
    responded := rfl
    chained := fun chained => { chained with
      send := chained.send.of_subset uids subset
      registration := chained.registration.of_subset uids subset
      sole := chained.sole.of_subset subset } }

theorem doSendReports_eq (active : terminator.active = true) (draws : Draws R) :
    ∃ sent, Untouched terminator sent ∧ sent.active = true ∧
      doSendReports terminator draws = scheduleNextSend sent draws := by
  obtain ⟨sent, sentActive⟩ := foldl_transmit terminator.reports draws.transmissionDelay terminator
  unfold doSendReports
  rw [if_pos active]
  refine ⟨_, sent.trans ?_, ?_, rfl⟩
  · exact .of_same rfl rfl rfl rfl rfl rfl
  · exact sentActive.trans active

theorem scheduleNextSend_running (chained : Chained terminator) (active : terminator.active = true)
    (none : sends terminator = 0) (draws : Draws R) :
    SendChain { scheduleNextSend terminator draws with responded := true } ∧
      Running { scheduleNextSend terminator draws with responded := true } := by
  have count : sends { scheduleNextSend terminator draws with responded := true } = 1 :=
    (sends_scheduleNextSend active).trans (by rw [none])
  refine ⟨⟨Nat.le_of_eq count, fun notResponded => by cases notResponded⟩, ?_, fun _ => by omega⟩
  exact scheduleNextSend_chained chained active none

section

variable (running : Running terminator)
include running

section

variable (chain : SendChain terminator)
include chain

theorem doSendReports_kept {entry : Entry (Callback R)}
    (taken : terminator.sim.takeNext? = some (entry, sim)) (send : entry.callback = .doSendReports) :
    SendChain (doSendReports { terminator with sim := sim } draws) ∧
      Running (doSendReports { terminator with sim := sim } draws) := by
  obtain ⟨_, _, _, uids, members⟩ := takeNext?_spec taken
  have subset : ∀ pending ∈ sim.entries, pending ∈ terminator.sim.entries :=
    fun pending mem => ((members pending).mp mem).1
  have count : sends { terminator with sim := sim } + 1 = sends terminator := by
    simpa [sends, send, isSend] using pendingCount_takeNext isSend taken
  have none : sends { terminator with sim := sim } = 0 := by
    have bound := chain.atMostOne
    omega
  have responded : terminator.responded = true := by
    by_contra notResponded
    have zero := chain.noneBefore (by simpa using notResponded)
    omega
  have chained : Chained { terminator with sim := sim } := { running.chained with
    send := running.chained.send.of_subset uids subset
    registration := running.chained.registration.of_subset uids subset
    sole := running.chained.sole.of_subset subset }
  have takenActive : Terminator.active { terminator with sim := sim } = true :=
    running.chained.respondedActive responded
  obtain ⟨sent, untouched, active, sending⟩ := doSendReports_eq takenActive draws
  have restarted := scheduleNextSend_running (untouched.chained chained) active (untouched.sends.trans none) draws
  have flagged : { scheduleNextSend sent draws with responded := true } = scheduleNextSend sent draws := by
    rw [scheduleNextSend_eq active, untouched.responded.trans responded]
  rwa [flagged, ← sending] at restarted

theorem receiveRegistrationResponse_kept (e2NodeId : UInt64) (draws : Draws R) :
    let after := receiveRegistrationResponse terminator e2NodeId draws
    (SendChain after ↔ (terminator.active = true -> terminator.responded = false)) ∧
      (SendChain after -> Running after) := by
  by_cases active : terminator.active = true
  · obtain ⟨identified, untouched, identifiedActive, responding⟩ :=
      receiveRegistrationResponse_eq active e2NodeId draws
    simp only [responding, active, true_implies]
    have count : sends { scheduleNextSend identified draws with responded := true } = sends terminator + 1 := by
      rw [← untouched.sends]
      exact sends_scheduleNextSend identifiedActive
    by_cases responded : terminator.responded = true
    · have going := running.continues responded
      have second : ¬ SendChain { scheduleNextSend identified draws with responded := true } := by
        intro after
        have bound := after.atMostOne
        omega
      simp [second, responded]
    · have first : terminator.responded = false := by simpa using responded
      have none : sends identified = 0 := untouched.sends.trans (chain.noneBefore first)
      obtain ⟨kept, going⟩ := scheduleNextSend_running (untouched.chained running.chained) identifiedActive none draws
      exact ⟨iff_of_true kept first, fun _ => going⟩
  · have ignored : receiveRegistrationResponse terminator e2NodeId draws = terminator := by
      simp [receiveRegistrationResponse, active]
    simp only [ignored]
    exact ⟨iff_of_true chain fun holds => absurd holds active, fun _ => running⟩

theorem activate_kept :
    SendChain (activate terminator draws) ∧ Running (activate terminator draws) := by
  unfold activate
  split
  · next ric =>
    split
    · exact ⟨chain, running⟩
    · next inactive =>
      have silent : terminator.responded = false := by
        by_contra responded
        exact inactive (running.chained.respondedActive (by simpa using responded))
      have none := chain.noneBefore silent
      have activated : Chained { terminator with active := true, reports := [] } :=
        { running.chained with
          respondedActive := fun _ => rfl
          reachesRic := fun _ => ric }
      have untouched := register_untouched activated draws
      exact ⟨untouched.sendChain_iff.mpr ⟨none ▸ Nat.zero_le 1, fun _ => none⟩,
        untouched.running ⟨activated, fun responded => absurd responded (by simp [silent])⟩⟩
  · next noRic =>
    have inactive : terminator.active = false := by
      by_contra active
      exact noRic (running.chained.reachesRic (by simpa using active))
    have cleared : Untouched terminator (deactivate { terminator with active := false } draws) :=
      .of_same rfl rfl rfl rfl inactive.symm rfl
    exact ⟨cleared.sendChain_iff.mpr chain, cleared.running running⟩

theorem deactivate_kept :
    SendChain (deactivate terminator draws) ∧ Running (deactivate terminator draws) := by
  by_cases active : terminator.active = true
  · obtain ⟨chained, none⟩ := deactivate_chained running.chained active draws
    have silent : (deactivate terminator draws).responded = false := by
      rw [deactivate_eq active]
    exact ⟨⟨none ▸ Nat.zero_le 1, fun _ => none⟩, chained, fun responded => by simp [silent] at responded⟩
  · rw [show deactivate terminator draws = terminator by simp [deactivate, active]]
    exact ⟨chain, running⟩

theorem step_sendChain_iff
    (moves : (system R).step terminator action = some next) :
    (SendChain next ↔ FirstResponse terminator action) ∧ (SendChain next -> Running next) := by
  have kept : ∀ {after : Terminator R}, SendChain after ∧ Running after -> FirstResponse terminator action ->
        (SendChain after ↔ FirstResponse terminator action) ∧ (SendChain after -> Running after) :=
    fun holds first => ⟨iff_of_true holds.1 first, fun _ => holds.2⟩
  cases action with
  | fire draws =>
    obtain ⟨⟨entry, sim⟩, taken, rfl⟩ := map_eq_some_iff.mp moves
    refine kept ?_ fun time e2NodeId draws same => by cases same
    cases send : isSend entry.callback with
    | true =>
      have callback : entry.callback = .doSendReports := by
        cases found : entry.callback <;> simp [found, isSend] at send
        rfl
      simp only [callback]
      exact doSendReports_kept running chain taken callback
    | false =>
      have untouched := takeNext_untouched taken send
      have taking := untouched.running running
      have takingChain := untouched.sendChain_iff.mpr chain
      cases callback : entry.callback with
      | doSendReports => simp [callback, isSend] at send
      | register =>
        have registered := register_untouched taking.chained draws
        exact ⟨registered.sendChain_iff.mpr takingChain, registered.running taking⟩
      | receiveRegistrationRequest e2NodeId => exact ⟨takingChain, taking⟩
      | receiveDeregistrationRequest e2NodeId => exact ⟨takingChain, taking⟩
      | receiveReport report => exact ⟨takingChain, taking⟩
  | call time call =>
    obtain ⟨sim, advanced, rfl⟩ := map_eq_some_iff.mp moves
    have untouched := advance_untouched advanced
    have advancing := untouched.running running
    have advancingChain := untouched.sendChain_iff.mpr chain
    cases call with
    | activate draws =>
      exact kept (activate_kept advancing advancingChain) fun time e2NodeId draws same => by cases same
    | deactivate draws =>
      exact kept (deactivate_kept advancing advancingChain) fun time e2NodeId draws same => by cases same
    | receiveRegistrationResponse e2NodeId draws =>
      obtain ⟨equivalent, going⟩ := receiveRegistrationResponse_kept advancing advancingChain e2NodeId draws
      refine ⟨equivalent.trans ⟨?_, fun first => first time e2NodeId draws rfl⟩, going⟩
      intro first otherTime other otherDraws _
      exact first
    | receiveDeregistrationResponse e2NodeId =>
      have changed : Untouched { terminator with sim := sim }
          (receiveDeregistrationResponse { terminator with sim := sim }) :=
        .of_same rfl rfl rfl rfl rfl rfl
      exact kept ⟨changed.sendChain_iff.mpr advancingChain, changed.running advancing⟩
        fun time e2NodeId draws same => by cases same
    | storeReport report =>
      have changed := storeReport_untouched { terminator with sim := sim } report
      exact kept ⟨changed.sendChain_iff.mpr advancingChain, changed.running advancing⟩
        fun time e2NodeId draws same => by cases same

end

end

theorem Constructed.running (constructed : Constructed terminator) : Running terminator where
  chained := {
    send := by rw [constructed.noSendEvent]; exact owns_zero _
    registration := by rw [constructed.noRegistrationEvent]; exact owns_zero _
    sole := by simp [EventQueue.Sole, constructed.nothingScheduled]
    respondedActive := by simp [constructed.notResponded]
    reachesRic := by simp [constructed.inactive] }
  continues := by simp [constructed.notResponded]

theorem Constructed.sendChain (constructed : Constructed terminator) : SendChain terminator := by
  have none : sends terminator = 0 := by
    simp [sends, pendingCount, constructed.nothingScheduled]
  exact ⟨none ▸ Nat.zero_le 1, fun _ => none⟩

/-- Along a run at most one send is pending in every state, and none from
`Deactivate` to the next registration response, exactly when no active period
sees a second registration response. -/
theorem sendChain_throughout_iff {trace : List (Terminator R × Action R)} (run : (system R).Run trace terminator) :
    ((∀ entry ∈ trace, SendChain entry.1) ∧ SendChain terminator) ↔ ∀ entry ∈ trace, FirstResponse entry.1 entry.2 :=
  run.always_iff Running SendChain (fun _ _ => True) FirstResponse
    (fun _ constructed => ⟨Constructed.running constructed, Constructed.sendChain constructed⟩)
    (fun running chain _ transition => step_sendChain_iff running chain transition)
    (fun _ _ => trivial)

/-- A terminator with the default intervals of one second and no delays. -/
def defaultTerminator : Terminator Nat where
  sim := EventQueue.empty 3
  nearRtRic := true
  active := false
  e2NodeId := 0
  reports := []
  registrationEvent := 0
  sendEvent := 0
  responded := false

/-- The draws of the default random variables, in seconds. -/
def defaultDraws : Draws Nat where
  initialReports := []
  registrationInterval := 1
  sendInterval := 1
  transmissionDelay _ := 0
  requestDelay := 0

/-- The node is activated at 0. Its registration requests at 0 and 1 are answered
at once. -/
def registeredTwice : List (Action Nat) :=
  [.call 0 (.activate defaultDraws), .fire defaultDraws, .call 0 (.receiveRegistrationResponse 1 defaultDraws),
   .fire defaultDraws,
   .fire defaultDraws,
   .fire defaultDraws,
   .call 1 (.receiveRegistrationResponse 1 defaultDraws)]

theorem defaultTerminator_constructed : Constructed defaultTerminator := by
  constructor <;> rfl

/-- Two sends are pending after the second response, one of them still after
`Deactivate`. -/
theorem second_chain_survives :
    (¬ ∀ terminator : Terminator Nat, (system Nat).Reachable terminator -> sends terminator ≤ 1) ∧
      ¬ ∀ terminator : Terminator Nat, (system Nat).Reachable terminator ->
        terminator.responded = false -> sends terminator = 0 := by
  constructor
  · intro oneChain
    have bound := oneChain _ (System.reachable_of_exec defaultTerminator_constructed
      registeredTwice (some_get (by decide)).symm)
    exact absurd bound (by decide)
  · intro silentAfter
    have silent := silentAfter _ (System.reachable_of_exec defaultTerminator_constructed
      (registeredTwice ++ [.call 1 (.deactivate defaultDraws)]) (some_get (by decide)).symm)
    exact absurd (silent (by decide)) (by decide)

/-- The run `registeredTwice` and the condition it fails. -/
theorem registeredTwice_sendChain_iff :
    ((∀ entry ∈ (system Nat).steps defaultTerminator registeredTwice, SendChain entry.1) ∧
        SendChain (((system Nat).exec defaultTerminator registeredTwice).get (by decide))) ↔
      ∀ entry ∈ (system Nat).steps defaultTerminator registeredTwice, FirstResponse entry.1 entry.2 :=
  sendChain_throughout_iff (System.run_of_exec defaultTerminator_constructed (some_get _).symm)

end Ns3.Oran.E2NodeTerminator
