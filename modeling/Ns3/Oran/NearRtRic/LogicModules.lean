import Ns3.Oran.NearRtRic.WaitWindow

/-!
# Logic modules that come and go

The tables of logic modules can be changed while the simulation runs. A report of another cycle ends
the program, so every running module has to belong to the one in force (`RunsCurrent`).
`runsCurrent_throughout_iff` says which runs keep this.
-/

namespace Ns3.Oran.NearRtRic

open Ns3.Semantics List EventQueue
open Std (TreeMap)

variable {C : Type} {ric next last : Ric C} {action : Action C} {lm : LmId}

/-- A module that is running, if it is, runs for this cycle. -/
def RunsFor (ric : Ric C) (lm : LmId) (cycle : Int) : Prop :=
  ∀ entry ∈ ric.sim.entries, entry.callback = .finishRun lm -> (ric.lms lm).cycle = cycle

/-- No report of an unexpected cycle was received, and none can be received from
a run that is pending. -/
structure RunsCurrent (ric : Ric C) : Prop where
  pending : ∀ lm, (ric.lms lm).active = true -> RunsFor ric lm ric.lmQueryCycle
  expected : ric.aborted ≠ some "Near-RT RIC received command for unexpected cycle"

/-- The logic modules a call activates. -/
def activates (ric : Ric C) : Action C -> List LmId
  | .call _ (.activateLm lm) => [lm]
  | .call _ .activate => if ric.active then [] else currentLms ric
  | .call _ (.start _) => if ric.active then [] else currentLms ric
  | _ => []

/-- What a step must not leave running: an active module outside the tables, when
it runs `QueryLms` for another cycle; a module of an earlier cycle, when it
activates that module. -/
structure NoneLeftRunning (ric : Ric C) (action : Action C) : Prop where
  queried : ∀ time, RunsQuery ric action time -> ∀ lm, (ric.lms lm).active = true ->
    lm ∉ currentLms ric -> RunsFor ric lm time
  activated : ∀ lm ∈ activates ric action, RunsFor ric lm ric.lmQueryCycle

/-- A step that starts no run, moves to no other cycle, activates no module and
does not end the program. -/
structure Settled (ric next : Ric C) : Prop where
  lmQueryCycle : next.lmQueryCycle = ric.lmQueryCycle
  cycle : ∀ lm, (next.lms lm).cycle = (ric.lms lm).cycle
  active : ∀ lm, (next.lms lm).active = true -> (ric.lms lm).active = true
  finishRuns : ∀ entry lm, entry.callback = .finishRun lm -> entry ∈ next.sim.entries -> entry ∈ ric.sim.entries
  expected : ric.aborted ≠ some "Near-RT RIC received command for unexpected cycle" ->
    next.aborted ≠ some "Near-RT RIC received command for unexpected cycle"

namespace Settled

theorem runsCurrent (settled : Settled ric next) (current : RunsCurrent ric) : RunsCurrent next where
  pending lm active entry mem finish := by
    rw [settled.cycle, settled.lmQueryCycle]
    exact current.pending lm (settled.active lm active) entry (settled.finishRuns entry lm finish mem) finish
  expected := settled.expected current.expected

theorem trans (first : Settled ric next) (second : Settled next last) : Settled ric last where
  lmQueryCycle := second.lmQueryCycle.trans first.lmQueryCycle
  cycle lm := (second.cycle lm).trans (first.cycle lm)
  active lm := first.active lm ∘ second.active lm
  finishRuns entry lm finish mem :=
    first.finishRuns entry lm finish (second.finishRuns entry lm finish mem)
  expected := second.expected ∘ first.expected

theorem of_same (cycle : next.lmQueryCycle = ric.lmQueryCycle) (lms : next.lms = ric.lms)
    (aborted : next.aborted = ric.aborted)
    (finishRuns : ∀ entry lm, entry.callback = .finishRun lm -> entry ∈ next.sim.entries ->
      entry ∈ ric.sim.entries) : Settled ric next where
  lmQueryCycle := cycle
  cycle lm := by rw [lms]
  active lm := by rw [lms]; exact id
  finishRuns := finishRuns
  expected := by rw [aborted]; exact id

theorem refl (ric : Ric C) : Settled ric ric := of_same rfl rfl rfl fun _ _ _ => id

theorem setLm {value : Lm C} (cycle : value.cycle = (ric.lms lm).cycle)
    (active : value.active = true -> (ric.lms lm).active = true) :
    Settled ric (setLm ric lm value) where
  lmQueryCycle := rfl
  cycle other := by
    by_cases here : other = lm
    · subst here
      simpa [NearRtRic.setLm] using cycle
    · simp [NearRtRic.setLm, here]
  active other := by
    by_cases here : other = lm
    · subst here
      simpa [NearRtRic.setLm] using active
    · simp [NearRtRic.setLm, here]
  finishRuns _ _ _ mem := mem
  expected := id

theorem takeNext {entry : Entry Callback} {sim : EventQueue Callback}
    (taken : ric.sim.takeNext? = some (entry, sim)) : Settled ric { ric with sim := sim } :=
  of_same rfl rfl rfl fun other _ _ mem =>
    (((takeNext?_spec taken).2.2.2.2 other).mp mem).1

theorem advance {time : Int} {sim : EventQueue Callback}
    (advanced : ric.sim.advance? time = some sim) : Settled ric { ric with sim := sim } :=
  of_same rfl rfl rfl fun _ _ _ mem => (advance?_spec advanced).2.2.2 ▸ mem

theorem checkForInactivity {draws : Draws C} (scheduling : Scheduling ric) :
    Settled ric (checkForInactivity ric draws) := by
  by_cases active : ric.active = true
  · have effect := checkForInactivity_eq ric draws active
    have members := fun entry => @checkForInactivity_mem _ _ scheduling draws entry
    rw [effect] at members ⊢
    exact of_same rfl rfl rfl fun entry lm finish mem =>
      (members entry (by simp [finish])).mp mem
  · rw [show NearRtRic.checkForInactivity ric draws = ric by
      simp [NearRtRic.checkForInactivity, active]]
    exact refl ric

theorem processLmQueryCommands (ric : Ric C) : Settled ric (processLmQueryCommands ric) := by
  by_cases active : ric.active = true
  · rw [processLmQueryCommands_eq ric active]
    exact of_same rfl rfl rfl fun _ _ _ mem => (mem_cancel.mp mem).1
  · rw [show NearRtRic.processLmQueryCommands ric = ric by
      simp [NearRtRic.processLmQueryCommands, active]]
    exact refl ric

theorem storeCommands (ric : Ric C) (commands : List (Issued C)) (lm : LmId) :
    Settled ric (storeCommands ric commands lm) :=
  of_same rfl rfl rfl fun _ _ _ => id

/-- A report of the cycle in force does not end the program. -/
theorem notifyLmFinished (ric : Ric C) (commands : List (Issued C)) (lm : LmId) :
    Settled ric (notifyLmFinished ric ric.lmQueryCycle commands lm) := by
  unfold NearRtRic.notifyLmFinished
  rw [if_pos rfl]
  dsimp only
  split
  · exact (storeCommands ric commands lm).trans (processLmQueryCommands _)
  · exact storeCommands ric commands lm

theorem finishRun (current : (ric.lms lm).active = true -> (ric.lms lm).cycle = ric.lmQueryCycle) :
    Settled ric (finishRun ric lm) := by
  unfold NearRtRic.finishRun
  split
  · next active =>
    rw [current active]
    refine (notifyLmFinished ric (ric.lms lm).commands lm).trans (setLm ?_ ?_)
    · rfl
    · exact id
  · exact refl ric

theorem deactivateLm (ric : Ric C) (lm : LmId) : Settled ric (deactivateLm ric lm) := by
  rw [deactivateLm_eq]
  exact setLm rfl (by simp)

theorem foldl_deactivateLm (visited : List LmId) (ric : Ric C) :
    Settled ric (visited.foldl NearRtRic.deactivateLm ric) := by
  induction visited generalizing ric with
  | nil => exact refl ric
  | cons lm rest ih =>
    exact (deactivateLm ric lm).trans (ih _)

theorem deactivate (ric : Ric C) : Settled ric (deactivate ric) := by
  unfold NearRtRic.deactivate
  split
  · exact (foldl_deactivateLm (currentLms ric) ric).trans (of_same rfl rfl rfl fun _ _ _ => id)
  · exact of_same rfl rfl rfl fun _ _ _ => id

theorem stop (ric : Ric C) : Settled ric (stop ric) :=
  (deactivate ric).trans <| of_same rfl rfl rfl fun _ _ _ mem =>
    (mem_cancel.mp (mem_cancel.mp (mem_cancel.mp mem).1).1).1

end Settled

/-- A step that activates these modules and leaves every run alone. -/
structure Activated (started : List LmId) (ric next : Ric C) : Prop where
  lmQueryCycle : next.lmQueryCycle = ric.lmQueryCycle
  cycle : ∀ lm, (next.lms lm).cycle = (ric.lms lm).cycle
  active : ∀ lm, (next.lms lm).active = true ↔ (ric.lms lm).active = true ∨ lm ∈ started
  finishRuns : ∀ entry lm, entry.callback = .finishRun lm -> (entry ∈ next.sim.entries ↔ entry ∈ ric.sim.entries)
  expected : ric.aborted ≠ some "Near-RT RIC received command for unexpected cycle" ->
    next.aborted ≠ some "Near-RT RIC received command for unexpected cycle"

namespace Activated

/-- Activation keeps the runs current exactly when those of the activated modules
already are. -/
theorem runsCurrent_iff {started : List LmId} (activated : Activated started ric next)
    (current : RunsCurrent ric) : RunsCurrent next ↔ ∀ lm ∈ started, RunsFor ric lm ric.lmQueryCycle := by
  constructor
  · intro after lm mem entry pending finish
    have active := (activated.active lm).mpr (.inr mem)
    have kept := after.pending lm active entry ((activated.finishRuns entry lm finish).mpr pending) finish
    rwa [activated.cycle, activated.lmQueryCycle] at kept
  · intro startedCurrent
    refine ⟨fun lm active entry pending finish => ?_, activated.expected current.expected⟩
    rw [activated.cycle, activated.lmQueryCycle]
    have before := (activated.finishRuns entry lm finish).mp pending
    rcases (activated.active lm).mp active with already | mem
    · exact current.pending lm already entry before finish
    · exact startedCurrent lm mem entry before finish

theorem trans {first second : List LmId} (one : Activated first ric next)
    (two : Activated second next last) : Activated (first ++ second) ric last where
  lmQueryCycle := two.lmQueryCycle.trans one.lmQueryCycle
  cycle lm := (two.cycle lm).trans (one.cycle lm)
  active lm := by rw [two.active, one.active, mem_append, or_assoc]
  finishRuns entry lm finish := (two.finishRuns entry lm finish).trans (one.finishRuns entry lm finish)
  expected := two.expected ∘ one.expected

theorem none (lmQueryCycle : next.lmQueryCycle = ric.lmQueryCycle) (lms : next.lms = ric.lms)
    (finishRuns : ∀ entry lm, entry.callback = .finishRun lm -> (entry ∈ next.sim.entries ↔ entry ∈ ric.sim.entries))
    (expected : ric.aborted ≠ some "Near-RT RIC received command for unexpected cycle" ->
      next.aborted ≠ some "Near-RT RIC received command for unexpected cycle") :
    Activated [] ric next where
  lmQueryCycle := lmQueryCycle
  cycle lm := by rw [lms]
  active lm := by simp [lms]
  finishRuns := finishRuns
  expected := expected

theorem activateLm (ric : Ric C) (lm : LmId) : Activated [lm] ric (activateLm ric lm) where
  lmQueryCycle := rfl
  cycle other := by
    by_cases here : other = lm
    · subst here
      simp [NearRtRic.activateLm, setLm]
    · simp [NearRtRic.activateLm, setLm, here]
  active other := by
    by_cases here : other = lm
    · subst here
      simp [NearRtRic.activateLm, setLm]
    · simp [NearRtRic.activateLm, setLm, here]
  finishRuns _ _ _ := .rfl
  expected := id

theorem foldl_activateLm (visited : List LmId) (ric : Ric C) :
    Activated visited ric (visited.foldl NearRtRic.activateLm ric) := by
  induction visited generalizing ric with
  | nil => exact none rfl rfl (fun _ _ _ => .rfl) id
  | cons lm rest ih =>
    exact (activateLm ric lm).trans (ih _)

theorem activate (ric : Ric C) : Activated (if ric.active then [] else currentLms ric) ric (activate ric) := by
  unfold NearRtRic.activate
  split
  · exact none rfl rfl (fun _ _ _ => .rfl) id
  · have flagged : Activated [] ric { ric with active := true } :=
      none rfl rfl (fun _ _ _ => .rfl) id
    exact flagged.trans (foldl_activateLm (currentLms ric) _)

theorem start (ric : Ric C) (draws : Draws C) :
    Activated (if ric.active then [] else currentLms ric) ric (start ric draws) := by
  have activated := activate ric
  generalize (if ric.active then [] else currentLms ric) = started at activated ⊢
  rw [← append_nil started]
  refine activated.trans ?_
  unfold NearRtRic.start
  dsimp only
  split
  · exact none rfl rfl (fun _ _ _ => .rfl) fun _ => by simp [abort]
  · split
    · exact none rfl rfl (fun _ _ _ => .rfl) fun _ => by simp [abort]
    · refine none rfl rfl (fun entry lm finish => ?_) id
      refine mem_schedule.trans ?_
      refine (or_congr_left mem_schedule).trans ?_
      refine ⟨?_, fun pending => .inl (.inl pending)⟩
      rintro ((old | rfl) | rfl)
      · exact old
      · cases finish
      · cases finish

end Activated

/-- A query keeps the runs current exactly when the active modules outside the
tables, which it does not restart, already run for its cycle. -/
theorem Queried.runsCurrent_iff (queried : Queried ric next) (current : RunsCurrent ric) : RunsCurrent next ↔
    ∀ lm, (ric.lms lm).active = true -> lm ∉ currentLms ric -> RunsFor ric lm ric.sim.now := by
  constructor
  · intro after lm active outside entry pending finish
    obtain ⟨same, entries⟩ := queried.others lm (.inl outside)
    have kept := after.pending lm (by rw [same, active]) entry ((entries entry finish).mpr pending) finish
    rwa [same, queried.lmQueryCycle] at kept
  · intro outsideCurrent
    refine ⟨fun lm active entry pending finish => ?_, by rw [queried.aborted]; exact current.expected⟩
    rw [queried.activeLm] at active
    rw [queried.lmQueryCycle]
    by_cases mem : lm ∈ currentLms ric
    · exact queried.cycle lm mem active
    · obtain ⟨same, entries⟩ := queried.others lm (.inl mem)
      rw [same]
      exact outsideCurrent lm active mem entry ((entries entry finish).mp pending) finish

theorem queryLms_runsCurrent_iff {draws : Draws C} (scheduling : Scheduling ric) (current : RunsCurrent ric) :
    RunsCurrent (queryLms ric draws) ↔ (ric.active = true -> ∀ lm, (ric.lms lm).active = true ->
      lm ∉ currentLms ric -> RunsFor ric lm ric.sim.now) := by
  by_cases active : ric.active = true
  · simpa only [active, true_implies] using (queryLms_queried scheduling active draws).runsCurrent_iff current
  · rw [show queryLms ric draws = ric by simp [queryLms, active]]
    exact iff_of_true current fun holds => absurd holds active

theorem RunsFor.congr {cycle : Int} (lms : next.lms = ric.lms)
    (finishRuns : ∀ entry : Entry Callback, entry.callback = .finishRun lm ->
      (entry ∈ next.sim.entries ↔ entry ∈ ric.sim.entries)) :
    RunsFor next lm cycle ↔ RunsFor ric lm cycle := by
  unfold RunsFor
  rw [lms]
  exact forall_congr' fun entry =>
    ⟨fun holds mem finish => holds ((finishRuns entry finish).mpr mem) finish,
      fun holds mem finish => holds ((finishRuns entry finish).mp mem) finish⟩

/-- A step that neither queries nor activates meets the condition. -/
theorem noneLeftRunning_of_quiet (noQuery : ∀ time, ¬ RunsQuery ric action time)
    (noActivation : activates ric action = []) : NoneLeftRunning ric action where
  queried time query := absurd query (noQuery time)
  activated := by simp [noActivation]

theorem not_runsQuery_fire {draws : Draws C} {entry : Entry Callback}
    {sim : EventQueue Callback} (taken : ric.sim.takeNext? = some (entry, sim))
    (other : entry.callback ≠ .queryLms) (time : Int) : ¬ RunsQuery ric (.fire draws) time := by
  rintro ⟨_, fires | ⟨_, same⟩⟩
  · exact other ((fires_iff taken).mp fires).1
  · cases same

variable {call : Call C}

theorem not_runsQuery_call {instant : Int} (other : ∀ draws, call ≠ .notifyReportReceived true draws) (time : Int) :
    ¬ RunsQuery ric (.call instant call) time := by
  rintro ⟨_, fires | ⟨draws, same⟩⟩
  · exact not_fires_call fires
  · cases same
    exact other draws rfl

/-- The condition on a step that runs `QueryLms` at this instant. -/
theorem noneLeftRunning_query_iff (instant : Int)
    (query : ∀ time, RunsQuery ric action time ↔ ric.active = true ∧ time = instant)
    (noActivation : activates ric action = []) :
    NoneLeftRunning ric action ↔ (ric.active = true -> ∀ lm, (ric.lms lm).active = true ->
      lm ∉ currentLms ric -> RunsFor ric lm instant) := by
  constructor
  · rintro ⟨queried, _⟩ active
    exact queried instant ((query instant).mpr ⟨active, rfl⟩)
  · intro outside
    refine ⟨fun time runs => ?_, by simp [noActivation]⟩
    obtain ⟨active, rfl⟩ := (query time).mp runs
    exact outside active

/-- The condition on a call that activates modules. -/
theorem noneLeftRunning_activation_iff {time : Int} (other : ∀ draws, call ≠ .notifyReportReceived true draws) :
    NoneLeftRunning ric (.call time call) ↔ ∀ lm ∈ activates ric (.call time call), RunsFor ric lm ric.lmQueryCycle :=
  ⟨fun left => left.activated, fun activated =>
    ⟨fun instant query => absurd query (not_runsQuery_call other instant), activated⟩⟩

theorem Activated.step_iff {time : Int} {sim : EventQueue Callback}
    (advanced : ric.sim.advance? time = some sim) (other : ∀ draws, call ≠ .notifyReportReceived true draws)
    (activated : Activated (activates ric (.call time call)) { ric with sim := sim } next)
    (current : RunsCurrent ric) : RunsCurrent next ↔ NoneLeftRunning ric (.call time call) := by
  rw [noneLeftRunning_activation_iff other,
    activated.runsCurrent_iff ((Settled.advance advanced).runsCurrent current)]
  refine forall₂_congr fun lm _ => RunsFor.congr rfl fun entry _ => ?_
  rw [(advance?_spec advanced).2.2.2]

theorem step_runsCurrent_iff (scheduling : Scheduling ric) (current : RunsCurrent ric)
    (moves : (system C).step ric action = some next) :
    RunsCurrent next ↔ NoneLeftRunning ric action := by
  obtain ⟨_, ⟨draws, entry, sim, rfl, taken, rfl⟩ | ⟨time, call, sim, rfl, advanced, rfl⟩⟩ :=
    step_cases moves
  · obtain ⟨mem, _, now, _, members⟩ := takeNext?_spec taken
    have taking := (Settled.takeNext taken).runsCurrent current
    have takingScheduling := scheduling.takeNext taken
    cases callback : entry.callback with
    | queryLms =>
      rw [noneLeftRunning_query_iff entry.ts ?_ rfl]
      · refine (queryLms_runsCurrent_iff takingScheduling taking).trans ?_
        refine imp_congr_right fun _ => forall₃_congr fun lm _ _ => ?_
        rw [show sim.now = entry.ts from now]
        refine RunsFor.congr rfl fun other finish => ?_
        refine (members other).trans ⟨And.left, fun pending => ⟨pending, fun uid => ?_⟩⟩
        rw [eq_of_uid pending mem uid, callback] at finish
        cases finish
      · intro time
        constructor
        · rintro ⟨active, fires | ⟨_, same⟩⟩
          · exact ⟨active, ((fires_iff taken).mp fires).2.symm⟩
          · cases same
        · rintro ⟨active, rfl⟩
          exact ⟨active, .inl ((fires_iff taken).mpr ⟨callback, rfl⟩)⟩
    | checkForInactivity =>
      refine iff_of_true ((Settled.checkForInactivity takingScheduling).runsCurrent taking) ?_
      exact noneLeftRunning_of_quiet (not_runsQuery_fire taken (by simp [callback])) rfl
    | processLmQueryCommands =>
      refine iff_of_true ((Settled.processLmQueryCommands _).runsCurrent taking) ?_
      exact noneLeftRunning_of_quiet (not_runsQuery_fire taken (by simp [callback])) rfl
    | finishRun lm =>
      refine iff_of_true ((Settled.finishRun fun active => ?_).runsCurrent taking) ?_
      · exact current.pending lm active entry mem callback
      · exact noneLeftRunning_of_quiet (not_runsQuery_fire taken (by simp [callback])) rfl
  · obtain ⟨_, now, _, members⟩ := advance?_spec advanced
    have advancing := (Settled.advance advanced).runsCurrent current
    have advancingScheduling := scheduling.advance advanced
    cases call with
    | start draws =>
      exact Activated.step_iff advanced (by simp)
        (Activated.start { ric with sim := sim } draws) current
    | activate =>
      exact Activated.step_iff advanced (by simp)
        (Activated.activate { ric with sim := sim }) current
    | activateLm lm => exact (Activated.activateLm _ lm).step_iff advanced (by simp) current
    | stop =>
      exact iff_of_true ((Settled.stop _).runsCurrent advancing)
        (noneLeftRunning_of_quiet (not_runsQuery_call (by simp)) rfl)
    | deactivate =>
      exact iff_of_true ((Settled.deactivate _).runsCurrent advancing)
        (noneLeftRunning_of_quiet (not_runsQuery_call (by simp)) rfl)
    | deactivateLm lm =>
      exact iff_of_true ((Settled.deactivateLm _ lm).runsCurrent advancing)
        (noneLeftRunning_of_quiet (not_runsQuery_call (by simp)) rfl)
    | notifyReportReceived triggered draws =>
      cases triggered with
      | false =>
        exact iff_of_true advancing
          (noneLeftRunning_of_quiet (not_runsQuery_call (by simp)) rfl)
      | true =>
        rw [noneLeftRunning_query_iff time ?_ rfl]
        · simp only [perform, notifyReportReceived, ite_isPending_cancel, if_true]
          have cancelled : Scheduling { ric with sim := sim.cancel ric.lmQueryEvent } :=
            advancingScheduling.cancel ric.lmQueryEvent
          have settled : Settled { ric with sim := sim }
              { ric with sim := sim.cancel ric.lmQueryEvent } :=
            .of_same rfl rfl rfl fun _ _ _ pending => (mem_cancel.mp pending).1
          refine (queryLms_runsCurrent_iff cancelled (settled.runsCurrent advancing)).trans ?_
          refine imp_congr_right fun _ => forall₃_congr fun lm _ _ => ?_
          rw [show (sim.cancel ric.lmQueryEvent).now = time from now]
          refine RunsFor.congr rfl fun other finish => ?_
          refine (mem_cancel_of_owns advancingScheduling.query
            (by simp [finish])).trans ?_
          rw [members]
        · intro instant
          constructor
          · rintro ⟨active, fires | ⟨_, same⟩⟩
            · exact absurd fires not_fires_call
            · exact ⟨active, (Action.call.inj same).1.symm⟩
          · rintro ⟨active, rfl⟩
            exact ⟨active, .inr ⟨draws, rfl⟩⟩
    | addLogicModule newLm =>
      refine iff_of_true ?_ (noneLeftRunning_of_quiet (not_runsQuery_call (by simp)) rfl)
      simp only [perform, addLogicModule]
      split
      · exact advancing
      · exact { advancing with }
    | removeLogicModule name =>
      refine iff_of_true ?_ (noneLeftRunning_of_quiet (not_runsQuery_call (by simp)) rfl)
      simp only [perform, removeLogicModule]
      split
      · exact { advancing with }
      · exact advancing
    | setDefaultLogicModule newDefaultLm =>
      exact iff_of_true { advancing with }
        (noneLeftRunning_of_quiet (not_runsQuery_call (by simp)) rfl)

theorem Configured.runsCurrent (configured : Configured ric) : RunsCurrent ric where
  pending := by simp [RunsFor, configured.nothingScheduled]
  expected := by simp [configured.notAborted]

/-- Along a run that changes the tables in any way, every report is of the cycle in
force, in every state, exactly when no query and no activation leaves an active
module running for another cycle. -/
theorem runsCurrent_throughout_iff {trace : List (Ric C × Action C)} (run : (system C).Run trace ric) :
    ((∀ entry ∈ trace, RunsCurrent entry.1) ∧ RunsCurrent ric) ↔ ∀ entry ∈ trace, NoneLeftRunning entry.1 entry.2 :=
  run.always_iff Scheduling RunsCurrent (fun _ _ => True) NoneLeftRunning
    (fun _ configured => ⟨Configured.scheduling configured, Configured.runsCurrent configured⟩)
    (fun scheduling current _ transition =>
      ⟨step_runsCurrent_iff scheduling current transition, fun _ => step_scheduling scheduling transition⟩)
    (fun _ _ => trivial)

/-- The additional module is removed at 7, while it is running for cycle 5. The query
at 10 does not cancel its run, which reports at 13. -/
def removedWhileRunning : List (Action Nat) :=
  [.call 0 (.start (draws [] [])), .fire (draws [1, 8] [[10], [20]]), .fire (draws [] []),
   .call 7 (.removeLogicModule "extra"),
   .fire (draws [1] [[11]]),
   .fire (draws [] []),
   .fire (draws [] [])]

/-- The state after `removedWhileRunning`. -/
def removedWhileRunningRic : Ric Nat :=
  ((system Nat).exec (twoModules 0 .drop) removedWhileRunning).get (by decide)

theorem removedWhileRunningRic_run : (system Nat).Run ((system Nat).steps (twoModules 0 .drop) removedWhileRunning)
    removedWhileRunningRic :=
  System.run_of_exec (twoModules_configured 0 .drop) (Option.some_get _).symm

/-- The calls that change the tables, besides those of a run of queries. -/
def QueriesAndTables : Action C -> Prop
  | .call _ (.addLogicModule _) => True
  | .call _ (.removeLogicModule _) => True
  | .call _ (.setDefaultLogicModule _) => True
  | action => QueriesOnly action

/-- A report of an unexpected cycle can be received. -/
theorem unexpected_cycle_received :
    ¬ ∀ (trace : List (Ric Nat × Action Nat)) (ric : Ric Nat), (system Nat).Run trace ric ->
      (∀ entry ∈ trace, QueriesAndTables entry.2) ->
      ric.aborted ≠ some "Near-RT RIC received command for unexpected cycle" := by
  intro neverUnexpected
  refine neverUnexpected _ _ removedWhileRunningRic_run ?_ (by decide)
  have actions : ((system Nat).steps (twoModules 0 .drop) removedWhileRunning).map Prod.snd =
      removedWhileRunning := rfl
  intro entry member
  have listed : entry.2 ∈ removedWhileRunning := actions ▸ List.mem_map_of_mem member
  simp only [removedWhileRunning, mem_cons, not_mem_nil, or_false] at listed
  rcases listed with same | same | same | same | same | same | same <;> rw [same] <;> trivial

/-- The run `removedWhileRunning` and the condition it fails. -/
theorem removedWhileRunning_runsCurrent_iff : ((∀ entry ∈ (system Nat).steps (twoModules 0 .drop) removedWhileRunning,
      RunsCurrent entry.1) ∧ RunsCurrent removedWhileRunningRic) ↔
    ∀ entry ∈ (system Nat).steps (twoModules 0 .drop) removedWhileRunning, NoneLeftRunning entry.1 entry.2 :=
  runsCurrent_throughout_iff removedWhileRunningRic_run

end Ns3.Oran.NearRtRic
