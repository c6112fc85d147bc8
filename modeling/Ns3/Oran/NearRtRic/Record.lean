import Ns3.Oran.NearRtRic.Frames

/-!
# The RIC collects reports by rounds

The query cycle refines `Ns3.Semantics.Collector`: `QueryLms` opens a round, `NotifyLmFinished` is a
report under the key of its logic module and `OranCmm::Filter` hands the batch over. `Recorded`
states this, `reachable_recorded` proves it of every reachable state.
-/

namespace Ns3.Oran.NearRtRic

open Ns3.Semantics List
open Std (TreeMap)

variable {C : Type} {ric next : Ric C} {lm : LmId} {cycle : Int} {draws : Draws C}

/-- An observable moment as the collector sees it. -/
def Event.toCollector : Event C -> Collector.Event LmKey (Issued C) Int
  | .queried cycle => .opened cycle
  | .finished _ _ key commands fate => .reported key commands (fate != .dropped)
  | .filtered _ => .handedOver

/-- The history of the RIC as a history of a collector. -/
def collected (history : List (Event C)) : Collector.History LmKey (Issued C) Int :=
  history.map Event.toCollector

@[simp] theorem collected_cons (event : Event C) (past : List (Event C)) :
    collected (event :: past) = event.toCollector :: collected past := rfl

/-- The batches handed over so far, each with the history before it. -/
def batches : List (Event C) -> List (Batch C × List (Event C))
  | [] => []
  | .queried _ :: past => batches past
  | .finished _ _ _ _ _ :: past => batches past
  | .filtered batch :: past => (batch, past) :: batches past

/-- Every batch is what the collector held when it was handed over. -/
def BatchesRecorded (history : List (Event C)) : Prop :=
  ∀ entry ∈ batches history, entry.1.cycle = Collector.round 0 (collected entry.2) ∧
      ∀ key, entry.1.commands[key]? = Collector.held (collected entry.2) key

/-- The state agrees with the collector of its history. -/
structure Recorded (ric : Ric C) : Prop where
  cycle : ric.lmQueryCycle = Collector.round 0 (collected ric.history)
  commands : ∀ key, ric.lmQueryCommands[key]? = Collector.held (collected ric.history) key
  stamped : Collector.Stamped Issued.cycle 0 (collected ric.history)
  batches : BatchesRecorded ric.history
  lms : LmsStamped ric
  past : ric.lmQueryCycle ≤ ric.sim.now

theorem Recorded.of_same (recorded : Recorded ric) (cycle : next.lmQueryCycle = ric.lmQueryCycle)
    (commands : next.lmQueryCommands = ric.lmQueryCommands) (history : next.history = ric.history)
    (now : ric.sim.now ≤ next.sim.now) (lms : LmsStamped next) : Recorded next where
  cycle := by rw [cycle, history, recorded.cycle]
  commands key := by rw [commands, history, recorded.commands]
  stamped := by rw [history]; exact recorded.stamped
  batches := by rw [history]; exact recorded.batches
  lms := lms
  past := by
    rw [cycle]
    exact le_trans recorded.past now

theorem Recorded.setSim (recorded : Recorded ric) {sim : EventQueue Callback}
    (now : ric.sim.now ≤ sim.now) : Recorded { ric with sim := sim } :=
  recorded.of_same rfl rfl rfl now recorded.lms

theorem Recorded.of_onlyLms (recorded : Recorded ric) (only : OnlyLms ric next)
    (now : next.sim.now = ric.sim.now) (lms : LmsStamped next) : Recorded next :=
  recorded.of_same only.lmQueryCycle only.lmQueryCommands only.history now.ge lms

variable {batch : Batch C} {past : List (Event C)} {commands : List (Issued C)}

/-- The part of the past in which a batch was collected. -/
theorem suffix_of_mem_batches {history : List (Event C)}
    (mem : (batch, past) ∈ batches history) : ∃ later, history = later ++ .filtered batch :: past := by
  induction history with
  | nil => simp [batches] at mem
  | cons event rest ih =>
    cases event with
    | queried cycle =>
      obtain ⟨later, rfl⟩ := ih mem
      exact ⟨.queried cycle :: later, rfl⟩
    | finished time lm key commands fate =>
      obtain ⟨later, rfl⟩ := ih mem
      exact ⟨.finished time lm key commands fate :: later, rfl⟩
    | filtered newest =>
      rcases mem_cons.mp mem with same | older
      · obtain ⟨rfl, rfl⟩ := Prod.mk.inj same
        exact ⟨[], rfl⟩
      · obtain ⟨later, rfl⟩ := ih older
        exact ⟨.filtered newest :: later, rfl⟩

/-- A batch is listed with the history before it. -/
theorem mem_batches_of_suffix {later : List (Event C)} :
    (batch, past) ∈ batches (later ++ .filtered batch :: past) := by
  induction later with
  | nil => exact mem_cons_self
  | cons event later ih =>
    cases event with
    | queried cycle => exact ih
    | finished time lm key commands fate => exact ih
    | filtered newest => exact mem_cons_of_mem _ ih

theorem getElem?_collectCommands (map : CommandMap C) (key other : LmKey) (commands : List (Issued C)) (fate : Fate) :
    (collectCommands map key commands fate)[other]? =
      if other = key then
        if fate != .dropped then some commands else map[key]?.map fun _ => []
      else
        map[other]? := by
  by_cases same : other = key
  · subst same
    cases held : map[other]? with
    | none =>
      have absent : map.contains other = false := by
        rw [TreeMap.contains_eq_isSome_getElem?, held]
        rfl
      cases fate <;>
        simp [collectCommands, insertCommands, absent, held, TreeMap.getD_eq_getD_getElem?]
    | some old =>
      have present : map.contains other = true := by
        rw [TreeMap.contains_eq_isSome_getElem?, held]
        rfl
      cases fate <;> simp [collectCommands, insertCommands, present]
  · have ne : compare key other ≠ .eq := fun equal =>
      same (compare_eq_iff_eq.mp equal).symm
    by_cases present : map.contains key = true <;> cases fate <;>
      simp [collectCommands, insertCommands, present, TreeMap.getElem?_insert, ne, same]

section

variable (recorded : Recorded ric)
include recorded

theorem beginCycle_recorded : Recorded (beginCycle ric) where
  cycle := rfl
  commands := recorded.commands
  stamped := ⟨recorded.cycle ▸ recorded.past, recorded.stamped⟩
  batches := recorded.batches
  lms := recorded.lms
  past := le_refl _

theorem storeCommands_recorded (current : ∀ issued ∈ commands, issued.cycle = ric.lmQueryCycle) :
    Recorded (storeCommands ric commands lm) where
  cycle := recorded.cycle
  commands key := by
    have mapped := getElem?_collectCommands ric.lmQueryCommands (lmKey ric lm) key commands (fateOf ric)
    rw [recorded.commands, recorded.commands] at mapped
    exact mapped
  stamped := ⟨fun issued mem => recorded.cycle ▸ current issued mem, recorded.stamped⟩
  batches := recorded.batches
  lms := recorded.lms
  past := recorded.past

theorem processLmQueryCommands_recorded : Recorded (processLmQueryCommands ric) := by
  by_cases active : ric.active = true
  · rw [processLmQueryCommands_eq ric active]
    exact {
      cycle := recorded.cycle
      commands := fun key => TreeMap.getElem?_emptyc
      stamped := recorded.stamped
      batches := by
        intro entry mem
        rcases mem_cons.mp mem with rfl | older
        · exact ⟨recorded.cycle, recorded.commands⟩
        · exact recorded.batches entry older
      lms := recorded.lms
      past := recorded.past }
  · simpa [processLmQueryCommands, active] using recorded

theorem notifyLmFinished_recorded (stamped : ∀ issued ∈ commands, issued.cycle = cycle) :
    Recorded (notifyLmFinished ric cycle commands lm) := by
  unfold notifyLmFinished
  split
  · next current =>
    have stored : Recorded (storeCommands ric commands lm) :=
      storeCommands_recorded recorded (current ▸ stamped)
    dsimp only
    split
    · exact processLmQueryCommands_recorded stored
    · exact stored
  · exact recorded.of_same rfl rfl rfl le_rfl recorded.lms

theorem finishRun_recorded : Recorded (finishRun ric lm) := by
  unfold finishRun
  split
  · have notified : Recorded (notifyLmFinished ric (ric.lms lm).cycle (ric.lms lm).commands lm) :=
      notifyLmFinished_recorded recorded (recorded.lms lm)
    refine notified.of_onlyLms rfl rfl fun other issued mem => ?_
    by_cases here : other = lm
    · subst here
      simp [setLm] at mem
    · simp only [setLm, Function.update_of_ne here] at mem ⊢
      exact notified.lms other issued mem
  · exact recorded

theorem checkForInactivity_recorded : Recorded (checkForInactivity ric draws) := by
  by_cases active : ric.active = true
  · rw [checkForInactivity_eq ric draws active]
    exact recorded.of_same rfl rfl rfl le_rfl recorded.lms
  · simpa [checkForInactivity, active] using recorded

theorem armProcessTimer_recorded : Recorded (armProcessTimer ric) := by
  unfold armProcessTimer
  split
  · exact recorded.of_same rfl rfl rfl le_rfl recorded.lms
  · exact recorded

theorem scheduleQuery_recorded : Recorded (scheduleQuery ric) :=
  recorded.of_same rfl rfl rfl le_rfl recorded.lms

theorem queryLms_recorded (scheduling : Scheduling ric) : Recorded (queryLms ric draws) := by
  unfold queryLms
  split
  · have armed : Recorded (armProcessTimer (checkForInactivity (beginCycle ric) draws)) :=
      armProcessTimer_recorded (checkForInactivity_recorded (beginCycle_recorded recorded))
    obtain ⟨restarted, _⟩ := foldl_restartLm (armed_scheduling scheduling draws)
      (currentLms (armProcessTimer (checkForInactivity (beginCycle ric) draws)))
      (armProcessTimer (checkForInactivity (beginCycle ric) draws)).lmQueryCycle draws
    exact scheduleQuery_recorded (armed.of_onlyLms restarted.only restarted.now (restarted.stamped armed.lms))
  · exact recorded

theorem notifyReportReceived_recorded (scheduling : Scheduling ric)
    (triggered : Bool) : Recorded (notifyReportReceived ric triggered draws) := by
  unfold notifyReportReceived
  split
  · rw [EventQueue.ite_isPending_cancel]
    exact queryLms_recorded (recorded.setSim le_rfl) (scheduling.cancel _)
  · exact recorded

theorem setFlag_recorded (flag : Bool) : Recorded (setLm ric lm { ric.lms lm with active := flag }) := by
  refine recorded.of_onlyLms rfl rfl fun other issued mem => ?_
  by_cases here : other = lm
  · subst here
    simp only [setLm, Function.update_self] at mem ⊢
    exact recorded.lms other issued mem
  · simp only [setLm, Function.update_of_ne here] at mem ⊢
    exact recorded.lms other issued mem

theorem deactivateLm_recorded : Recorded (deactivateLm ric lm) := by
  rw [deactivateLm_eq]
  exact setFlag_recorded recorded false

end

theorem foldl_recorded {body : Ric C -> LmId -> Ric C}
    (kept : ∀ {ric : Ric C} {lm}, Recorded ric -> Recorded (body ric lm))
    (visited : List LmId) (recorded : Recorded ric) : Recorded (visited.foldl body ric) := by
  induction visited generalizing ric with
  | nil => exact recorded
  | cons lm rest ih => exact ih (kept recorded)

section

variable (recorded : Recorded ric)
include recorded

theorem activate_recorded : Recorded (activate ric) := by
  unfold activate
  split
  · exact recorded
  · exact foldl_recorded (fun kept => setFlag_recorded kept true) _ (recorded.of_same rfl rfl rfl le_rfl recorded.lms)

theorem deactivate_recorded : Recorded (deactivate ric) := by
  unfold deactivate
  split
  · have stopped : Recorded ((currentLms ric).foldl deactivateLm ric) :=
      foldl_recorded deactivateLm_recorded (currentLms ric) recorded
    exact stopped.of_same rfl rfl rfl le_rfl stopped.lms
  · exact recorded.of_same rfl rfl rfl le_rfl recorded.lms

theorem start_recorded : Recorded (start ric draws) := by
  have activated := activate_recorded recorded
  unfold start
  dsimp only
  split
  · exact activated.of_same rfl rfl rfl le_rfl activated.lms
  · split
    · exact activated.of_same rfl rfl rfl le_rfl activated.lms
    · exact activated.of_same rfl rfl rfl le_rfl activated.lms

theorem stop_recorded : Recorded (stop ric) :=
  have deactivated := deactivate_recorded recorded
  deactivated.of_same rfl rfl rfl le_rfl deactivated.lms

theorem invoke_recorded (scheduling : Scheduling ric) (callback : Callback) : Recorded (invoke ric draws callback) := by
  cases callback with
  | queryLms => exact queryLms_recorded recorded scheduling
  | checkForInactivity => exact checkForInactivity_recorded recorded
  | processLmQueryCommands => exact processLmQueryCommands_recorded recorded
  | finishRun lm => exact finishRun_recorded recorded

theorem perform_recorded (scheduling : Scheduling ric) (call : Call C) : Recorded (perform ric call) := by
  cases call with
  | start draws => exact start_recorded recorded
  | stop => exact stop_recorded recorded
  | activate => exact activate_recorded recorded
  | deactivate => exact deactivate_recorded recorded
  | activateLm lm => exact setFlag_recorded recorded true
  | deactivateLm lm => exact deactivateLm_recorded recorded
  | notifyReportReceived triggered draws =>
    exact notifyReportReceived_recorded recorded scheduling triggered
  | addLogicModule newLm =>
    simp only [perform, addLogicModule]
    split
    · exact recorded
    · exact recorded.of_same rfl rfl rfl le_rfl recorded.lms
  | removeLogicModule name =>
    simp only [perform, removeLogicModule]
    split
    · exact recorded.of_same rfl rfl rfl le_rfl recorded.lms
    · exact recorded
  | setDefaultLogicModule newDefaultLm =>
    exact recorded.of_same rfl rfl rfl le_rfl recorded.lms

theorem step_recorded {action : Action C} (scheduling : Scheduling ric)
    (moves : (system C).step ric action = some next) : Recorded next := by
  obtain ⟨_, ⟨_, entry, sim, _, taken, rfl⟩ | ⟨_, _, sim, _, advanced, rfl⟩⟩ :=
    step_cases moves
  · obtain ⟨_, later, now, _, _⟩ := EventQueue.takeNext?_spec taken
    exact invoke_recorded (recorded.setSim (now ▸ later)) (scheduling.takeNext taken) _
  · obtain ⟨later, now, _, _⟩ := EventQueue.advance?_spec advanced
    exact perform_recorded (recorded.setSim (now ▸ later)) (scheduling.advance advanced) _

end

theorem Configured.recorded (configured : Configured ric) : Recorded ric where
  cycle := by simp [configured.firstCycle, configured.noHistory, collected, Collector.round]
  commands key := by
    simp [configured.nothingCollected, configured.noHistory, collected, Collector.held]
  stamped := by simp [configured.noHistory, collected, Collector.Stamped]
  batches := by simp [configured.noHistory, BatchesRecorded, NearRtRic.batches]
  lms lm := by simp [configured.idleLms lm]
  past := by rw [configured.firstCycle, configured.startOfTime]

theorem reachable_recorded (reachable : (system C).Reachable ric) : Recorded ric :=
  (reachable.invariant (fun ric => Recorded ric ∧ Scheduling ric)
    (fun _ configured => ⟨Configured.recorded configured, Configured.scheduling configured⟩)
    fun kept moves =>
      ⟨step_recorded kept.1 kept.2 moves, step_scheduling kept.2 moves⟩).1

end Ns3.Oran.NearRtRic
