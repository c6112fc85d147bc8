import Ns3.Oran.NearRtRic.Model

/-!
# What the functions of the RIC leave alone

`OnlyLms` is the frame of every function on logic modules: it can change the simulator, the objects
and the abort flag. `Scheduling` says who holds which event id, so that a stored id never names an
event of somebody else. `Restarted` is the effect of the loop that starts all logic modules,
`Queried` that of `QueryLms`.
-/

namespace Ns3.Oran.NearRtRic

open Ns3.Semantics List EventQueue NearRtRic
open Std (TreeMap)

variable {C : Type} {ric next last : Ric C} {lm : LmId} {cycle : Int} {draws : Draws C}

/-- Only the simulator, the logic module objects and the abort flag differ. -/
def OnlyLms (ric next : Ric C) : Prop :=
  next = { ric with sim := next.sim, lms := next.lms, aborted := next.aborted }

theorem OnlyLms.refl (ric : Ric C) : OnlyLms ric ric := rfl

theorem OnlyLms.trans (first : OnlyLms ric next) (second : OnlyLms next last) : OnlyLms ric last := by
  unfold OnlyLms at *
  rw [second, first]

namespace OnlyLms

section

variable (only : OnlyLms ric next)
include only

theorem defaultLm : next.defaultLm = ric.defaultLm := by rw [only]

theorem additionalLms : next.additionalLms = ric.additionalLms := by
  rw [only]

theorem active : next.active = ric.active := by rw [only]

theorem lmQueryCycle : next.lmQueryCycle = ric.lmQueryCycle := by
  rw [only]

theorem lmQueryCommands : next.lmQueryCommands = ric.lmQueryCommands := by rw [only]

theorem processLmQueryCommandsEvent :
    next.processLmQueryCommandsEvent = ric.processLmQueryCommandsEvent := by rw [only]

theorem lmQueryMaxWaitTime : next.lmQueryMaxWaitTime = ric.lmQueryMaxWaitTime := by rw [only]

theorem history : next.history = ric.history := by rw [only]

end

end OnlyLms

/-- The commands of every logic module are stamped with the cycle it runs for. -/
def LmsStamped (ric : Ric C) : Prop :=
  ∀ lm, ∀ issued ∈ (ric.lms lm).commands, issued.cycle = (ric.lms lm).cycle

/-- Every stored event id names an event of its own kind, and each logic module
knows its only pending `FinishRun`. -/
structure Scheduling (ric : Ric C) : Prop where
  finishRun : ∀ lm, ric.sim.Owns (ric.lms lm).finishRunEvent (.finishRun lm)
  finishRunSole : ∀ lm, ric.sim.Sole (ric.lms lm).finishRunEvent (.finishRun lm)
  process : ric.sim.Owns ric.processLmQueryCommandsEvent .processLmQueryCommands
  query : ric.sim.Owns ric.lmQueryEvent .queryLms
  inactivity : ric.sim.Owns ric.e2NodeInactivityEvent .checkForInactivity

/-! ## Logic module objects -/

theorem deactivateLm_eq (ric : Ric C) (lm : LmId) :
    deactivateLm ric lm = setLm ric lm { ric.lms lm with active := false } := by
  simp [deactivateLm, cancelRun, setLm]

theorem restartLm_of_inactive (inactive : (ric.lms lm).active = false) : restartLm cycle draws ric lm = ric := by
  simp [restartLm, cancelRun, runLm, inactive]

/-- Restarting an active logic module cancels its pending `FinishRun` and
schedules a new one; it never meets a run that is still going on. -/
theorem restartLm_of_active (active : (ric.lms lm).active = true) : restartLm cycle draws ric lm =
      let cancelled := ric.sim.cancel (ric.lms lm).finishRunEvent
      let scheduled := cancelled.schedule (draws.processingDelay lm) (.finishRun lm)
      setLm { ric with sim := scheduled.1 } lm { ric.lms lm with
          cycle := cycle
          commands := (draws.commands lm).map fun command => ⟨command, cycle⟩
          finishRunEvent := scheduled.2 } := by
  by_cases running : ric.sim.isPending (ric.lms lm).finishRunEvent = true
  · simp [restartLm, running, cancelRun, runLm, active, setLm, isRunning]
  · have idle : ric.sim.isPending (ric.lms lm).finishRunEvent = false := by simpa using running
    simp [restartLm, runLm, active, isRunning, idle, cancel_of_not_pending idle]

section

variable (scheduling : Scheduling ric)
include scheduling

theorem Scheduling.setLm {value : Lm C}
    (same : value.finishRunEvent = (ric.lms lm).finishRunEvent) :
    Scheduling (setLm ric lm value) where
  finishRun other := by
    by_cases here : other = lm
    · subst here
      simpa [NearRtRic.setLm, same] using scheduling.finishRun other
    · simpa [NearRtRic.setLm, here] using scheduling.finishRun other
  finishRunSole other := by
    by_cases here : other = lm
    · subst here
      simpa [NearRtRic.setLm, same] using scheduling.finishRunSole other
    · simpa [NearRtRic.setLm, here] using scheduling.finishRunSole other
  process := scheduling.process
  query := scheduling.query
  inactivity := scheduling.inactivity

variable {sim : EventQueue Callback}

theorem Scheduling.of_subset (uids : sim.nextUid = ric.sim.nextUid)
    (subset : ∀ entry ∈ sim.entries, entry ∈ ric.sim.entries) :
    Scheduling { ric with sim := sim } where
  finishRun other := (scheduling.finishRun other).of_subset uids subset
  finishRunSole other := (scheduling.finishRunSole other).of_subset subset
  process := scheduling.process.of_subset uids subset
  query := scheduling.query.of_subset uids subset
  inactivity := scheduling.inactivity.of_subset uids subset

theorem Scheduling.cancel (id : Nat) : Scheduling { ric with sim := ric.sim.cancel id } :=
  scheduling.of_subset rfl fun _ mem => (mem_cancel.mp mem).1

variable {callback : Callback}

theorem Scheduling.schedule (delay : Nat) (notFinish : ∀ lm, callback ≠ .finishRun lm) :
    Scheduling { ric with sim := (ric.sim.schedule delay callback).1 } where
  finishRun other := (scheduling.finishRun other).schedule delay callback
  finishRunSole other := (scheduling.finishRunSole other).schedule (notFinish other) delay
  process := scheduling.process.schedule delay callback
  query := scheduling.query.schedule delay callback
  inactivity := scheduling.inactivity.schedule delay callback

theorem restartLm_scheduling (lm : LmId) (cycle : Int) (draws : Draws C) :
    Scheduling (restartLm cycle draws ric lm) := by
  by_cases active : (ric.lms lm).active = true
  · rw [restartLm_of_active active]
    exact {
      finishRun := by
        intro other
        by_cases here : other = lm
        · subst here
          simpa [setLm] using owns_schedule_self _ _
        · simpa [setLm, here] using ((scheduling.finishRun other).cancel _).schedule _ _
      finishRunSole := by
        intro other
        by_cases here : other = lm
        · subst here
          simpa [setLm] using (scheduling.finishRunSole other).reschedule _
        · have ne : Callback.finishRun lm ≠ .finishRun other := by
            simpa using Ne.symm here
          simpa [setLm, here] using ((scheduling.finishRunSole other).cancel _).schedule ne _
      process := (scheduling.process.cancel _).schedule _ _
      query := (scheduling.query.cancel _).schedule _ _
      inactivity := (scheduling.inactivity.cancel _).schedule _ _ }
  · rwa [restartLm_of_inactive (by simpa using active)]

end

/-- The effect of restarting the logic modules of a list one after the other. -/
structure Restarted (cycle : Int) (started : List LmId) (ric next : Ric C) : Prop where
  only : OnlyLms ric next
  now : next.sim.now = ric.sim.now
  aborted : next.aborted = ric.aborted
  name : ∀ lm, (next.lms lm).name = (ric.lms lm).name
  active : ∀ lm, (next.lms lm).active = (ric.lms lm).active
  /-- A started module runs for the new cycle. -/
  cycle : ∀ lm ∈ started, (ric.lms lm).active = true -> (next.lms lm).cycle = cycle
  /-- A module that is not started, or is inactive, stays as it was. -/
  others : ∀ lm, lm ∉ started ∨ (ric.lms lm).active = false -> next.lms lm = ric.lms lm
  /-- So do its pending `FinishRun` and every other pending event. -/
  entries : ∀ entry : Entry Callback,
    (∀ lm, entry.callback = .finishRun lm -> lm ∉ started ∨ (ric.lms lm).active = false) ->
      (entry ∈ next.sim.entries ↔ entry ∈ ric.sim.entries)
  stamped : LmsStamped ric -> LmsStamped next

theorem Restarted.nil (cycle : Int) (ric : Ric C) : Restarted cycle [] ric ric where
  only := .refl ric
  now := rfl
  aborted := rfl
  name _ := rfl
  active _ := rfl
  cycle := by simp
  others _ _ := rfl
  entries _ _ := .rfl
  stamped := id

theorem Restarted.trans {first second : List LmId} (one : Restarted cycle first ric next)
    (two : Restarted cycle second next last) : Restarted cycle (first ++ second) ric last where
  only := one.only.trans two.only
  now := two.now.trans one.now
  aborted := two.aborted.trans one.aborted
  name lm := (two.name lm).trans (one.name lm)
  active lm := (two.active lm).trans (one.active lm)
  cycle := by
    intro lm mem active
    by_cases again : lm ∈ second
    · exact two.cycle lm again (by rw [one.active, active])
    · rw [two.others lm (.inl again)]
      exact one.cycle lm ((mem_append.mp mem).resolve_right again) active
  others := by
    intro lm untouched
    have firstUntouched : lm ∉ first ∨ (ric.lms lm).active = false :=
      untouched.imp_left fun absent inFirst => absent (mem_append_left _ inFirst)
    have secondUntouched : lm ∉ second ∨ (next.lms lm).active = false := by
      rw [one.active]
      exact untouched.imp_left fun absent inSecond => absent (mem_append_right _ inSecond)
    rw [two.others lm secondUntouched, one.others lm firstUntouched]
  entries := by
    intro entry untouched
    refine (two.entries entry fun lm same => ?_).trans (one.entries entry fun lm same => ?_)
    · rw [one.active]
      exact (untouched lm same).imp_left fun absent inSecond =>
        absent (mem_append_right _ inSecond)
    · exact (untouched lm same).imp_left fun absent inFirst =>
        absent (mem_append_left _ inFirst)
  stamped stamped := two.stamped (one.stamped stamped)

theorem restartLm_restarted (scheduling : Scheduling ric) :
    Restarted cycle [lm] ric (restartLm cycle draws ric lm) := by
  by_cases active : (ric.lms lm).active = true
  · rw [restartLm_of_active active]
    exact {
      only := rfl
      now := rfl
      aborted := rfl
      name := by
        intro other
        by_cases here : other = lm
        · subst here
          simp [setLm]
        · simp [setLm, here]
      active := by
        intro other
        by_cases here : other = lm
        · subst here
          simp [setLm]
        · simp [setLm, here]
      cycle := by
        intro other mem _
        rw [mem_singleton.mp mem]
        simp [setLm]
      others := by
        intro other untouched
        have ne : other ≠ lm := by
          rintro rfl
          simp [active] at untouched
        simp [setLm, ne]
      entries := by
        intro entry untouched
        have notThis : entry.callback ≠ .finishRun lm := by
          intro same
          have absent := untouched lm same
          simp [active] at absent
        refine mem_schedule.trans ?_
        rw [mem_cancel_of_owns (scheduling.finishRun lm) notThis]
        refine ⟨fun mem => mem.resolve_right ?_, .inl⟩
        rintro rfl
        exact notThis rfl
      stamped := by
        intro stamped other issued mem
        by_cases here : other = lm
        · subst here
          simp only [setLm, Function.update_self] at mem ⊢
          obtain ⟨command, _, rfl⟩ := List.mem_map.mp mem
          rfl
        · simp only [setLm, Function.update_of_ne here] at mem ⊢
          exact stamped other issued mem }
  · have inactive : (ric.lms lm).active = false := by simpa using active
    rw [restartLm_of_inactive inactive]
    exact { Restarted.nil cycle ric with
      cycle := by
        intro other mem activeOther
        rw [mem_singleton.mp mem] at activeOther
        exact absurd activeOther active
      others := fun _ _ => rfl
      entries := fun _ _ => .rfl }

theorem foldl_restartLm (scheduling : Scheduling ric) (started : List LmId) (cycle : Int) (draws : Draws C) :
    Restarted cycle started ric (started.foldl (restartLm cycle draws) ric) ∧
      Scheduling (started.foldl (restartLm cycle draws) ric) := by
  induction started generalizing ric with
  | nil => exact ⟨.nil cycle ric, scheduling⟩
  | cons lm rest ih =>
    have tail := ih (restartLm_scheduling scheduling lm cycle draws)
    exact ⟨(restartLm_restarted scheduling).trans tail.1, tail.2⟩

/-! ## Event ids along every function -/

theorem checkForInactivity_eq (ric : Ric C) (draws : Draws C) (active : ric.active = true) :
    checkForInactivity ric draws =
      let scheduled := (ric.sim.cancel ric.e2NodeInactivityEvent).schedule
        draws.inactivityInterval .checkForInactivity
      { ric with sim := scheduled.1, e2NodeInactivityEvent := scheduled.2 } := by
  simp [checkForInactivity, active]

theorem processLmQueryCommands_eq (ric : Ric C) (active : ric.active = true) : processLmQueryCommands ric = { ric with
        sim := ric.sim.cancel ric.processLmQueryCommandsEvent
        history := .filtered ⟨ric.sim.now, ric.lmQueryCycle, ric.lmQueryCommands⟩ :: ric.history
        lmQueryCommands := ∅ } := by
  simp [processLmQueryCommands, active]

section

variable (scheduling : Scheduling ric)
include scheduling

theorem checkForInactivity_scheduling : Scheduling (checkForInactivity ric draws) := by
  by_cases active : ric.active = true
  · rw [checkForInactivity_eq ric draws active]
    exact { (scheduling.cancel _).schedule draws.inactivityInterval (by simp) with
      inactivity := owns_schedule_self _ _ }
  · simpa [checkForInactivity, active] using scheduling

theorem processLmQueryCommands_scheduling : Scheduling (processLmQueryCommands ric) := by
  by_cases active : ric.active = true
  · rw [processLmQueryCommands_eq ric active]
    exact { scheduling.cancel ric.processLmQueryCommandsEvent with }
  · simpa [processLmQueryCommands, active] using scheduling

theorem notifyLmFinished_scheduling (commands : List (Issued C)) :
    Scheduling (notifyLmFinished ric cycle commands lm) := by
  unfold notifyLmFinished
  dsimp only
  split
  · split
    · exact processLmQueryCommands_scheduling { scheduling with }
    · exact { scheduling with }
  · exact { scheduling with }

theorem finishRun_scheduling : Scheduling (finishRun ric lm) := by
  unfold finishRun
  split
  · exact (notifyLmFinished_scheduling scheduling _).setLm rfl
  · exact scheduling

theorem scheduleQuery_scheduling : Scheduling (scheduleQuery ric) :=
  { scheduling.schedule ric.lmQueryInterval (by simp) with
    query := owns_schedule_self _ _ }

theorem armProcessTimer_scheduling : Scheduling (armProcessTimer ric) := by
  unfold armProcessTimer
  split
  · exact { scheduling.schedule ric.lmQueryMaxWaitTime (by simp) with
      process := owns_schedule_self _ _ }
  · exact scheduling

/-- Up to the loop over the logic modules, `QueryLms` keeps the ids in order. -/
theorem armed_scheduling (draws : Draws C) :
    Scheduling (armProcessTimer (checkForInactivity (beginCycle ric) draws)) :=
  armProcessTimer_scheduling (checkForInactivity_scheduling { scheduling with })

theorem queryLms_scheduling : Scheduling (queryLms ric draws) := by
  unfold queryLms
  split
  · exact scheduleQuery_scheduling (foldl_restartLm (armed_scheduling scheduling draws) _ _ draws).2
  · exact scheduling

theorem notifyReportReceived_scheduling (triggered : Bool) :
    Scheduling (notifyReportReceived ric triggered draws) := by
  unfold notifyReportReceived
  split
  · apply queryLms_scheduling
    rw [ite_isPending_cancel]
    exact scheduling.cancel _
  · exact scheduling

end

theorem foldl_scheduling {body : Ric C -> LmId -> Ric C}
    (kept : ∀ {ric : Ric C} {lm}, Scheduling ric -> Scheduling (body ric lm))
    (visited : List LmId) (scheduling : Scheduling ric) : Scheduling (visited.foldl body ric) := by
  induction visited generalizing ric with
  | nil => exact scheduling
  | cons lm rest ih => exact ih (kept scheduling)

section

variable (scheduling : Scheduling ric)
include scheduling

theorem activateLm_scheduling : Scheduling (activateLm ric lm) :=
  scheduling.setLm rfl

theorem activate_scheduling : Scheduling (activate ric) := by
  unfold activate
  split
  · exact scheduling
  · exact foldl_scheduling activateLm_scheduling _ { scheduling with }

theorem deactivateLm_scheduling : Scheduling (deactivateLm ric lm) := by
  rw [deactivateLm_eq]
  exact scheduling.setLm rfl

theorem deactivate_scheduling : Scheduling (deactivate ric) := by
  unfold deactivate
  split
  · exact { foldl_scheduling deactivateLm_scheduling (currentLms ric) scheduling with }
  · exact { scheduling with }

theorem start_scheduling : Scheduling (start ric draws) := by
  have activated := activate_scheduling scheduling
  unfold start
  dsimp only
  split
  · exact { activated with }
  · split
    · exact { activated with }
    · exact { (scheduleQuery_scheduling activated).schedule draws.inactivityInterval (by simp) with
        inactivity := owns_schedule_self _ _ }

theorem stop_scheduling : Scheduling (stop ric) :=
  (((deactivate_scheduling scheduling).cancel _).cancel _).cancel _

theorem invoke_scheduling (callback : Callback) : Scheduling (invoke ric draws callback) := by
  cases callback with
  | queryLms => exact queryLms_scheduling scheduling
  | checkForInactivity => exact checkForInactivity_scheduling scheduling
  | processLmQueryCommands => exact processLmQueryCommands_scheduling scheduling
  | finishRun lm => exact finishRun_scheduling scheduling

theorem perform_scheduling (call : Call C) : Scheduling (perform ric call) := by
  cases call with
  | start draws => exact start_scheduling scheduling
  | stop => exact stop_scheduling scheduling
  | activate => exact activate_scheduling scheduling
  | deactivate => exact deactivate_scheduling scheduling
  | activateLm lm => exact scheduling.setLm rfl
  | deactivateLm lm => exact deactivateLm_scheduling scheduling
  | notifyReportReceived triggered draws =>
    exact notifyReportReceived_scheduling scheduling triggered
  | addLogicModule newLm =>
    simp only [perform, addLogicModule]
    split
    · exact scheduling
    · exact { scheduling with }
  | removeLogicModule name =>
    simp only [perform, removeLogicModule]
    split
    · exact { scheduling with }
    · exact scheduling
  | setDefaultLogicModule newDefaultLm => exact { scheduling with }

/-! ## The effect of a query -/

/-- The effect of `QueryLms` before it turns to the logic modules. -/
structure Armed (ric next : Ric C) : Prop where
  same : next = { beginCycle ric with
    sim := next.sim
    e2NodeInactivityEvent := next.e2NodeInactivityEvent
    processLmQueryCommandsEvent := next.processLmQueryCommandsEvent }
  now : next.sim.now = ric.sim.now
  /-- No pending `FinishRun` is touched. -/
  finishRuns : ∀ entry : Entry Callback, ∀ lm, entry.callback = .finishRun lm ->
    (entry ∈ next.sim.entries ↔ entry ∈ ric.sim.entries)
  /-- No timer of the wait window is cancelled. -/
  timers : ∀ entry : Entry Callback, entry.callback = .processLmQueryCommands ->
    (entry ∈ next.sim.entries ↔ entry ∈ ric.sim.entries ∨
      (0 < ric.lmQueryMaxWaitTime ∧ entry.uid = next.processLmQueryCommandsEvent ∧
        entry.ts = ric.sim.now + ric.lmQueryMaxWaitTime))
  timer : 0 < ric.lmQueryMaxWaitTime -> next.sim.isPending next.processLmQueryCommandsEvent = true

theorem checkForInactivity_mem (draws : Draws C)
    {entry : Entry Callback} (other : entry.callback ≠ .checkForInactivity) :
    entry ∈ (checkForInactivity ric draws).sim.entries ↔ entry ∈ ric.sim.entries := by
  by_cases active : ric.active = true
  · rw [checkForInactivity_eq ric draws active]
    refine mem_schedule.trans ?_
    rw [mem_cancel_of_owns scheduling.inactivity other]
    refine ⟨fun mem => mem.resolve_right ?_, .inl⟩
    rintro rfl
    exact other rfl
  · simp [checkForInactivity, active]

theorem armProcessTimer_armed (active : ric.active = true) (draws : Draws C) :
    Armed ric (armProcessTimer (checkForInactivity (beginCycle ric) draws)) := by
  have checked := checkForInactivity_eq (beginCycle ric) draws active
  have begun : Scheduling (beginCycle ric) := { scheduling with }
  have kept := fun (entry : Entry Callback) => @checkForInactivity_mem _ _ begun draws entry
  generalize checkForInactivity (beginCycle ric) draws = current at checked kept
  have now : current.sim.now = ric.sim.now := by rw [checked]; rfl
  have wait : current.lmQueryMaxWaitTime = ric.lmQueryMaxWaitTime := by rw [checked]; rfl
  by_cases limited : 0 < ric.lmQueryMaxWaitTime
  · have armed : armProcessTimer current = { current with
          sim := (current.sim.schedule ric.lmQueryMaxWaitTime .processLmQueryCommands).1
          processLmQueryCommandsEvent :=
            (current.sim.schedule ric.lmQueryMaxWaitTime .processLmQueryCommands).2 } := by
      simp [armProcessTimer, wait, limited]
    rw [armed]
    exact {
      same := by rw [checked]
      now := now
      finishRuns := by
        intro entry lm same
        refine mem_schedule.trans ?_
        rw [kept entry (by simp [same])]
        refine ⟨fun mem => mem.resolve_right ?_, .inl⟩
        rintro rfl
        cases same
      timers := by
        intro entry same
        refine mem_schedule.trans ?_
        rw [kept entry (by simp [same])]
        refine or_congr .rfl ⟨?_, ?_⟩
        · rintro rfl
          exact ⟨limited, rfl, by rw [now]⟩
        · rintro ⟨_, uid, ts⟩
          obtain ⟨entryTs, entryUid, callback⟩ := entry
          simp only at same uid ts
          rw [same, uid, ts, now]
          rfl
      timer := fun _ => isPending_schedule_self _ _ }
  · have armed : armProcessTimer current = current := by simp [armProcessTimer, wait, limited]
    rw [armed]
    exact {
      same := by rw [checked]
      now := now
      finishRuns := fun entry lm same => kept entry (by simp [same])
      timers := fun entry same => by simp [kept entry (by simp [same]), limited, beginCycle]
      timer := fun pos => absurd pos limited }

/-- The effect of `QueryLms` in an active RIC: a cycle begins, its timer is armed
and every active logic module of the tables is started for it. -/
structure Queried (ric next : Ric C) : Prop where
  now : next.sim.now = ric.sim.now
  active : next.active = ric.active
  aborted : next.aborted = ric.aborted
  lmQueryCycle : next.lmQueryCycle = ric.sim.now
  lmQueryMaxWaitTime : next.lmQueryMaxWaitTime = ric.lmQueryMaxWaitTime
  lmQueryCommands : next.lmQueryCommands = ric.lmQueryCommands
  history : next.history = .queried ric.sim.now :: ric.history
  defaultLm : next.defaultLm = ric.defaultLm
  additionalLms : next.additionalLms = ric.additionalLms
  name : ∀ lm, (next.lms lm).name = (ric.lms lm).name
  activeLm : ∀ lm, (next.lms lm).active = (ric.lms lm).active
  /-- A started module runs for the new cycle. -/
  cycle : ∀ lm ∈ currentLms ric, (ric.lms lm).active = true -> (next.lms lm).cycle = ric.sim.now
  /-- Other modules, their pending `FinishRun` included, stay as they were. -/
  others : ∀ lm, lm ∉ currentLms ric ∨ (ric.lms lm).active = false ->
    next.lms lm = ric.lms lm ∧ ∀ entry : Entry Callback, entry.callback = .finishRun lm ->
      (entry ∈ next.sim.entries ↔ entry ∈ ric.sim.entries)
  timers : ∀ entry : Entry Callback, entry.callback = .processLmQueryCommands ->
    (entry ∈ next.sim.entries ↔ entry ∈ ric.sim.entries ∨
      (0 < ric.lmQueryMaxWaitTime ∧ entry.uid = next.processLmQueryCommandsEvent ∧
        entry.ts = ric.sim.now + ric.lmQueryMaxWaitTime))
  timer : 0 < ric.lmQueryMaxWaitTime -> next.sim.isPending next.processLmQueryCommandsEvent = true

theorem queryLms_queried (active : ric.active = true) (draws : Draws C) : Queried ric (queryLms ric draws) := by
  have armed := armProcessTimer_armed scheduling active draws
  have armedScheduling := armed_scheduling scheduling draws
  unfold queryLms
  rw [if_pos active]
  dsimp only
  generalize armProcessTimer (checkForInactivity (beginCycle ric) draws) = current
    at armed armedScheduling ⊢
  obtain ⟨restarted, last⟩ := foldl_restartLm armedScheduling (currentLms current) current.lmQueryCycle draws
  generalize (currentLms current).foldl (restartLm current.lmQueryCycle draws) current = next
    at restarted last ⊢
  have only := restarted.only
  have same := armed.same
  have tables : currentLms current = currentLms ric := by rw [same]; rfl
  have lms : current.lms = ric.lms := by rw [same]; rfl
  have cycle : current.lmQueryCycle = ric.sim.now := by rw [same]; rfl
  have scheduled : ∀ entry : Entry Callback, entry.callback ≠ .queryLms ->
      (entry ∈ (scheduleQuery next).sim.entries ↔ entry ∈ next.sim.entries) := by
    intro entry other
    refine mem_schedule.trans ⟨fun mem => mem.resolve_right ?_, .inl⟩
    rintro rfl
    exact other rfl
  have kept : ∀ entry : Entry Callback, entry.callback = .processLmQueryCommands ->
      (entry ∈ (scheduleQuery next).sim.entries ↔ entry ∈ current.sim.entries) := by
    intro entry timer
    rw [scheduled entry (by simp [timer])]
    exact restarted.entries entry fun lm finish => by simp [timer] at finish
  exact {
    now := restarted.now.trans armed.now
    active := only.active.trans (by rw [same]; rfl)
    aborted := restarted.aborted.trans (by rw [same]; rfl)
    lmQueryCycle := only.lmQueryCycle.trans cycle
    lmQueryMaxWaitTime := only.lmQueryMaxWaitTime.trans (by rw [same]; rfl)
    lmQueryCommands := only.lmQueryCommands.trans (by rw [same]; rfl)
    history := only.history.trans (by rw [same]; rfl)
    defaultLm := only.defaultLm.trans (by rw [same]; rfl)
    additionalLms := only.additionalLms.trans (by rw [same]; rfl)
    name := fun lm => (restarted.name lm).trans (by rw [lms])
    activeLm := fun lm => (restarted.active lm).trans (by rw [lms])
    cycle := by
      intro lm mem activeLm
      rw [← cycle]
      exact restarted.cycle lm (tables ▸ mem) (lms ▸ activeLm)
    others := by
      intro lm untouched
      rw [← tables, ← lms] at untouched
      refine ⟨(restarted.others lm untouched).trans (by rw [lms]), fun entry finish => ?_⟩
      rw [scheduled entry (by simp [finish]), ← armed.finishRuns entry lm finish]
      refine restarted.entries entry fun other otherFinish => ?_
      rw [finish] at otherFinish
      cases otherFinish
      exact untouched
    timers := by
      intro entry timer
      rw [kept entry timer, armed.timers entry timer]
      rw [show (scheduleQuery next).processLmQueryCommandsEvent =
        current.processLmQueryCommandsEvent from only.processLmQueryCommandsEvent]
    timer := by
      intro limited
      rw [show (scheduleQuery next).processLmQueryCommandsEvent =
        current.processLmQueryCommandsEvent from only.processLmQueryCommandsEvent]
      obtain ⟨entry, mem, uid⟩ := isPending_iff.mp (armed.timer limited)
      have callback := armedScheduling.process.2 entry mem uid
      exact isPending_iff.mpr ⟨entry, (kept entry callback).mpr mem, uid⟩ }
/-! ## Steps -/

end

/-- A step runs the callback of the next event, or carries out a call at an
instant no pending event precedes. -/
theorem step_cases {action : Action C} (moves : (system C).step ric action = some next) : ric.aborted = none ∧
      ((∃ draws entry sim, action = .fire draws ∧ ric.sim.takeNext? = some (entry, sim) ∧
          next = invoke { ric with sim := sim } draws entry.callback) ∨
        ∃ time call sim, action = .call time call ∧ ric.sim.advance? time = some sim ∧
          next = perform { ric with sim := sim } call) := by
  simp only [system, step] at moves
  split at moves
  · cases moves
  · next running =>
    refine ⟨by simpa using running, ?_⟩
    cases action with
    | fire draws =>
      obtain ⟨taken, found, rfl⟩ := Option.map_eq_some_iff.mp moves
      exact .inl ⟨draws, taken.1, taken.2, rfl, found, rfl⟩
    | call time call =>
      obtain ⟨sim, advanced, rfl⟩ := Option.map_eq_some_iff.mp moves
      exact .inr ⟨time, call, sim, rfl, advanced, rfl⟩

/-- The action starts the next event, which has this callback, at this time. -/
def Fires (ric : Ric C) (action : Action C) (callback : Callback) (time : Int) : Prop :=
  ∃ draws entry sim, action = .fire draws ∧ ric.sim.takeNext? = some (entry, sim) ∧
    entry.callback = callback ∧ entry.ts = time

/-- The action runs `QueryLms` at this time, periodically or triggered. -/
def RunsQuery (ric : Ric C) (action : Action C) (time : Int) : Prop :=
  ric.active = true ∧ (Fires ric action .queryLms time ∨
      ∃ draws, action = .call time (.notifyReportReceived true draws))

variable {time : Int} {callback : Callback} {sim : EventQueue Callback}

theorem fires_iff {entry : Entry Callback} (taken : ric.sim.takeNext? = some (entry, sim)) :
    Fires ric (.fire draws) callback time ↔ entry.callback = callback ∧ entry.ts = time := by
  constructor
  · rintro ⟨_, other, _, _, found, callback, time⟩
    rw [taken] at found
    obtain ⟨rfl, _⟩ := found
    exact ⟨callback, time⟩
  · rintro ⟨callback, time⟩
    exact ⟨draws, entry, sim, rfl, taken, callback, time⟩

theorem not_fires_call {other : Int} {call : Call C} : ¬ Fires ric (.call time call) callback other := by
  rintro ⟨_, _, _, same, _⟩
  cases same

theorem Scheduling.takeNext (scheduling : Scheduling ric) {entry : Entry Callback}
    (taken : ric.sim.takeNext? = some (entry, sim)) : Scheduling { ric with sim := sim } := by
  obtain ⟨_, _, _, uids, members⟩ := takeNext?_spec taken
  exact scheduling.of_subset uids fun other mem => ((members other).mp mem).1

theorem Scheduling.advance (scheduling : Scheduling ric) (advanced : ric.sim.advance? time = some sim) :
    Scheduling { ric with sim := sim } := by
  obtain ⟨_, _, uids, members⟩ := advance?_spec advanced
  exact scheduling.of_subset uids fun other mem => members ▸ mem

theorem step_scheduling {action : Action C} (scheduling : Scheduling ric)
    (moves : (system C).step ric action = some next) : Scheduling next := by
  obtain ⟨_, ⟨_, _, _, _, taken, rfl⟩ | ⟨_, _, _, _, advanced, rfl⟩⟩ := step_cases moves
  · exact invoke_scheduling (scheduling.takeNext taken) _
  · exact perform_scheduling (scheduling.advance advanced) _

theorem Configured.scheduling (configured : Configured ric) : Scheduling ric where
  finishRun lm := by rw [configured.noLmEvents lm]; exact owns_zero _
  finishRunSole lm := by simp [EventQueue.Sole, configured.nothingScheduled]
  process := by rw [configured.noProcessEvent]; exact owns_zero _
  query := by rw [configured.noQueryEvent]; exact owns_zero _
  inactivity := by rw [configured.noInactivityEvent]; exact owns_zero _

end Ns3.Oran.NearRtRic
