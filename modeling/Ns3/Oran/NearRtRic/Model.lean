import Mathlib.Data.Prod.Lex
import Mathlib.Data.String.Basic
import Ns3.Semantics.Collector
import Ns3.Semantics.EventQueue
import Ns3.Semantics.Run

/-!
# The Near-RT RIC and its logic modules

The query cycle of `OranNearRtRic` with the part of `OranLm` it drives: `QueryLms` starts every
logic module, each one reports through `FinishRun` and `NotifyLmFinished`, and
`ProcessLmQueryCommands` hands the commands to the conflict mitigation module.

What a logic module computes in its virtual `Run()` and what its random variables draw are inputs of
the step (`Draws`). What is set once when a simulation is built is not checked for null; the
deregistrations of `CheckForInactivity` leave here nothing but its timer.
-/

namespace Ns3.Oran.NearRtRic

open Ns3.Semantics
open Std (TreeMap)

/-- A logic module object, as the pointers of the tables name it. -/
abbrev LmId := Nat

/-- The key of a logic module in `m_lmQueryCommands`: its name, and whether it is
the default one. Keys are ordered lexicographically, as `std::tuple` is. -/
abbrev LmKey := String ×ₗ Bool

/-- A command object together with the cycle of the run that generated it. -/
structure Issued (C : Type) where
  command : C
  cycle : Int
deriving DecidableEq

/-- What the virtual methods and random variables deliver in one step. -/
structure Draws (C : Type) where
  /-- The commands the module's own `Run()` returns. -/
  commands : LmId -> List C
  /-- `m_processingDelayRv`, negative values already replaced by zero. -/
  processingDelay : LmId -> Nat
  /-- `m_e2NodeInactivityIntervalRv`. -/
  inactivityInterval : Nat

/-- The events the RIC and its logic modules schedule. -/
inductive Callback where
  | queryLms
  | checkForInactivity
  | processLmQueryCommands
  | finishRun (lm : LmId)
deriving DecidableEq

/-- `OranLm`. -/
structure Lm (C : Type) where
  name : String
  active : Bool
  cycle : Int
  commands : List (Issued C)
  finishRunEvent : Nat

/-- `OranNearRtRic::LateCommandPolicy`. -/
inductive LateCommandPolicy where
  | drop
  | save
deriving DecidableEq

/-- `m_lmQueryCommands`. -/
abbrev CommandMap (C : Type) := TreeMap LmKey (List (Issued C))

/-- A map of commands passed to `OranCmm::Filter`, with the instant and the cycle
in force at that instant. -/
structure Batch (C : Type) where
  time : Int
  cycle : Int
  commands : CommandMap C

/-- What `NotifyLmFinished` did with the commands it received. -/
inductive Fate where
  | collected
  | saved
  | dropped
deriving DecidableEq

/-- The observable moments of a simulation: a query cycle starts, a logic module
reports, and a batch goes to the conflict mitigation module. -/
inductive Event (C : Type) where
  | queried (cycle : Int)
  | finished (time : Int) (lm : LmId) (key : LmKey) (commands : List (Issued C)) (fate : Fate)
  | filtered (batch : Batch C)

/-- `OranNearRtRic` with its logic modules and the simulator. `history` lists the
observable moments, newest first; no function reads it. `aborted` holds the text
of the `NS_ABORT_MSG` that ended the program. -/
structure Ric (C : Type) where
  sim : EventQueue Callback
  lms : LmId -> Lm C
  defaultLm : LmId
  additionalLms : TreeMap String LmId
  active : Bool
  lmQueryInterval : Nat
  lmQueryEvent : Nat
  e2NodeInactivityEvent : Nat
  lmQueryCycle : Int
  lmQueryMaxWaitTime : Nat
  processLmQueryCommandsEvent : Nat
  lmQueryLateCommandPolicy : LateCommandPolicy
  lmQueryCommands : CommandMap C
  aborted : Option String
  history : List (Event C)

variable {C : Type}

variable (ric : Ric C)

/-- `NS_ABORT_MSG`: the program ends here. -/
def abort (message : String) : Ric C :=
  { ric with aborted := some message }

variable (lm : LmId)

/-- Assign to one logic module object. -/
def setLm (value : Lm C) : Ric C :=
  { ric with lms := Function.update ric.lms lm value }

/-- `OranLm::IsRunning`. -/
def isRunning : Bool :=
  ric.sim.isPending (ric.lms lm).finishRunEvent

/-- `OranLm::CancelRun`, without its log entry. -/
def cancelRun : Ric C :=
  if (ric.lms lm).active && isRunning ric lm then
    setLm { ric with sim := ric.sim.cancel (ric.lms lm).finishRunEvent } lm { ric.lms lm with commands := [] }
  else
    ric

/-- `OranLm::Activate`. -/
def activateLm : Ric C :=
  setLm ric lm { ric.lms lm with active := true }

/-- `OranLm::Deactivate`. The flag is cleared first, so `CancelRun` finds the
module inactive. -/
def deactivateLm : Ric C :=
  let inactive := setLm ric lm { ric.lms lm with active := false }
  if isRunning inactive lm then cancelRun inactive lm else inactive

/-- `OranLm::Run(cycle)`. -/
def runLm (cycle : Int) (draws : Draws C) : Ric C :=
  if (ric.lms lm).active then
    if isRunning ric lm then
      abort ric "Attempting to run LM that is already running"
    else
      let scheduled := ric.sim.schedule (draws.processingDelay lm) (.finishRun lm)
      setLm { ric with sim := scheduled.1 } lm { ric.lms lm with
          cycle := cycle
          commands := (draws.commands lm).map fun command => ⟨command, cycle⟩
          finishRunEvent := scheduled.2 }
  else
    ric

variable (draws : Draws C)

/-- `OranNearRtRic::CheckForInactivity`, reduced to its timer. -/
def checkForInactivity : Ric C :=
  if ric.active then
    let sim :=
      if ric.sim.isPending ric.e2NodeInactivityEvent then
        ric.sim.cancel ric.e2NodeInactivityEvent
      else
        ric.sim
    let scheduled := sim.schedule draws.inactivityInterval .checkForInactivity
    { ric with sim := scheduled.1, e2NodeInactivityEvent := scheduled.2 }
  else
    ric

/-- `OranNearRtRic::ProcessLmQueryCommands`. -/
def processLmQueryCommands : Ric C :=
  if ric.active then
    let sim :=
      if ric.sim.isPending ric.processLmQueryCommandsEvent then
        ric.sim.cancel ric.processLmQueryCommandsEvent
      else
        ric.sim
    { ric with
      sim := sim
      history := .filtered ⟨ric.sim.now, ric.lmQueryCycle, ric.lmQueryCommands⟩ :: ric.history
      lmQueryCommands := ∅ }
  else
    ric

/-- Whether commands of the current cycle still count as in time. -/
def acceptsCommands : Bool :=
  ric.sim.isPending ric.processLmQueryCommandsEvent || ric.lmQueryMaxWaitTime == 0

/-- The key under which the commands of a logic module are collected. -/
def lmKey : LmKey :=
  toLex ((ric.lms lm).name, lm == ric.defaultLm)

/-- What happens to commands of the current cycle. -/
def fateOf : Fate :=
  if acceptsCommands ric then .collected
  else
    match ric.lmQueryLateCommandPolicy with
    | .drop => .dropped
    | .save => .saved

/-- Append commands to the vector of a key, which is created if it is missing. -/
def insertCommands (map : CommandMap C) (key : LmKey) (commands : List (Issued C)) : CommandMap C :=
  map.insert key (map.getD key [] ++ commands)

/-- The map after a report: the vector of an existing key is emptied first, and
commands that are not dropped are appended. -/
def collectCommands (map : CommandMap C) (key : LmKey) (commands : List (Issued C)) (fate : Fate) : CommandMap C :=
  let reset := if map.contains key then map.insert key [] else map
  match fate with
  | .collected => insertCommands reset key commands
  | .saved => insertCommands reset key commands
  | .dropped => reset

/-- Store what a logic module reported for the current cycle. -/
def storeCommands (commands : List (Issued C)) (lm : LmId) : Ric C :=
  let key := lmKey ric lm
  { ric with
    lmQueryCommands := collectCommands ric.lmQueryCommands key commands (fateOf ric)
    history := .finished ric.sim.now lm key commands (fateOf ric) :: ric.history }

/-- `OranNearRtRic::NotifyLmFinished`. The program does not survive a report of
another cycle, so what happens to the map in that case is not modelled. -/
def notifyLmFinished (cycle : Int) (commands : List (Issued C)) (lm : LmId) : Ric C :=
  if cycle = ric.lmQueryCycle then
    let stored := storeCommands ric commands lm
    if stored.lmQueryCommands.size = stored.additionalLms.size + 1 ∧ acceptsCommands stored then
      processLmQueryCommands stored
    else
      stored
  else
    abort ric "Near-RT RIC received command for unexpected cycle"

/-- `OranLm::FinishRun`. -/
def finishRun : Ric C :=
  if (ric.lms lm).active then
    let notified := notifyLmFinished ric (ric.lms lm).cycle (ric.lms lm).commands lm
    setLm notified lm { notified.lms lm with commands := [] }
  else
    ric

/-- What `QueryLms` does with one logic module: a run still going on is
cancelled, then a new one starts. -/
def restartLm (cycle : Int) (draws : Draws C) (ric : Ric C) (lm : LmId) : Ric C :=
  let idle := if isRunning ric lm then cancelRun ric lm else ric
  runLm idle lm cycle draws

/-- The logic modules of the RIC in the order `QueryLms` visits them. -/
def currentLms : List LmId :=
  ric.defaultLm :: ric.additionalLms.toList.map Prod.snd

/-- Arm the timer of the wait window, if there is one. The id of a timer armed
before is overwritten. -/
def armProcessTimer : Ric C :=
  if 0 < ric.lmQueryMaxWaitTime then
    let scheduled := ric.sim.schedule ric.lmQueryMaxWaitTime .processLmQueryCommands
    { ric with sim := scheduled.1, processLmQueryCommandsEvent := scheduled.2 }
  else
    ric

/-- Schedule the next periodic query. -/
def scheduleQuery : Ric C :=
  let scheduled := ric.sim.schedule ric.lmQueryInterval .queryLms
  { ric with sim := scheduled.1, lmQueryEvent := scheduled.2 }

/-- Move to the cycle of the current instant. -/
def beginCycle : Ric C :=
  { ric with
    lmQueryCycle := ric.sim.now
    history := .queried ric.sim.now :: ric.history }

/-- `OranNearRtRic::QueryLms`. -/
def queryLms : Ric C :=
  if ric.active then
    let armed := armProcessTimer (checkForInactivity (beginCycle ric) draws)
    scheduleQuery ((currentLms armed).foldl (restartLm armed.lmQueryCycle draws) armed)
  else
    ric

/-- `OranNearRtRic::NotifyReportReceived`; `triggered` tells whether one of the
query triggers asked for a query. -/
def notifyReportReceived (triggered : Bool) (draws : Draws C) : Ric C :=
  if triggered then
    let sim :=
      if ric.sim.isPending ric.lmQueryEvent then ric.sim.cancel ric.lmQueryEvent else ric.sim
    queryLms { ric with sim := sim } draws
  else
    ric

/-- `OranNearRtRic::Activate`. -/
def activate : Ric C :=
  if ric.active then ric
  else (currentLms ric).foldl activateLm { ric with active := true }

/-- `OranNearRtRic::Deactivate`. -/
def deactivate : Ric C :=
  if ric.active then
    { (currentLms ric).foldl deactivateLm ric with active := false }
  else
    { ric with active := false }

/-- `OranNearRtRic::Start`. -/
def start : Ric C :=
  let activated := activate ric
  if activated.sim.isPending activated.lmQueryEvent then
    abort activated "Near-RT RIC has already been started"
  else if activated.sim.isPending activated.e2NodeInactivityEvent then
    abort activated "Near-RT RIC has already been started"
  else
    let queried := scheduleQuery activated
    let scheduled := queried.sim.schedule draws.inactivityInterval .checkForInactivity
    { queried with sim := scheduled.1, e2NodeInactivityEvent := scheduled.2 }

/-- `OranNearRtRic::Stop`. -/
def stop : Ric C :=
  let stopped := deactivate ric
  { stopped with
    sim := ((stopped.sim.cancel stopped.lmQueryEvent).cancel stopped.e2NodeInactivityEvent).cancel
      stopped.processLmQueryCommandsEvent }

/-- `OranNearRtRic::SetDefaultLogicModule`. -/
def setDefaultLogicModule (newDefaultLm : LmId) : Ric C :=
  { ric with defaultLm := newDefaultLm }

/-- `OranNearRtRic::AddLogicModule`; a name that exists is refused. -/
def addLogicModule (newLm : LmId) : Ric C :=
  if ric.additionalLms.contains (ric.lms newLm).name then ric
  else { ric with additionalLms := ric.additionalLms.insert (ric.lms newLm).name newLm }

/-- `OranNearRtRic::RemoveLogicModule`; an unknown name is refused. -/
def removeLogicModule (name : String) : Ric C :=
  if ric.additionalLms.contains name then
    { ric with additionalLms := ric.additionalLms.erase name }
  else
    ric

/-- The calls a simulation program can make between two simulator events. -/
inductive Call (C : Type) where
  | start (draws : Draws C)
  | stop
  | activate
  | deactivate
  | activateLm (lm : LmId)
  | deactivateLm (lm : LmId)
  | notifyReportReceived (triggered : Bool) (draws : Draws C)
  | addLogicModule (newLm : LmId)
  | removeLogicModule (name : String)
  | setDefaultLogicModule (newDefaultLm : LmId)

/-- One step of the simulation: the next event of the simulator, or a call made
at an instant up to the next event. -/
inductive Action (C : Type) where
  | fire (draws : Draws C)
  | call (time : Int) (call : Call C)

/-- Run the callback of an event. -/
def invoke : Callback -> Ric C
  | .queryLms => queryLms ric draws
  | .checkForInactivity => checkForInactivity ric draws
  | .processLmQueryCommands => processLmQueryCommands ric
  | .finishRun lm => finishRun ric lm

/-- Carry out a call. -/
def perform : Call C -> Ric C
  | .start draws => start ric draws
  | .stop => stop ric
  | .activate => activate ric
  | .deactivate => deactivate ric
  | .activateLm lm => activateLm ric lm
  | .deactivateLm lm => deactivateLm ric lm
  | .notifyReportReceived triggered draws => notifyReportReceived ric triggered draws
  | .addLogicModule newLm => addLogicModule ric newLm
  | .removeLogicModule name => removeLogicModule ric name
  | .setDefaultLogicModule newDefaultLm => setDefaultLogicModule ric newDefaultLm

/-- The effect of an action; nothing follows an abort. -/
def step (action : Action C) : Option (Ric C) :=
  if ric.aborted.isSome then none
  else
    match action with
    | .fire draws =>
      (ric.sim.takeNext?).map fun taken => invoke { ric with sim := taken.2 } draws taken.1.callback
    | .call time call =>
      (ric.sim.advance? time).map fun sim => perform { ric with sim := sim } call

/-- A RIC that was built and configured, but not started: any tables, attributes
and names, no event ever scheduled. -/
structure Configured (ric : Ric C) : Prop where
  nothingScheduled : ric.sim.entries = []
  startOfTime : ric.sim.now = 0
  firstCycle : ric.lmQueryCycle = 0
  nothingCollected : ric.lmQueryCommands = ∅
  notAborted : ric.aborted = none
  noHistory : ric.history = []
  idleLms : ∀ lm, (ric.lms lm).commands = []
  noLmEvents : ∀ lm, (ric.lms lm).finishRunEvent = 0
  noQueryEvent : ric.lmQueryEvent = 0
  noInactivityEvent : ric.e2NodeInactivityEvent = 0
  noProcessEvent : ric.processLmQueryCommandsEvent = 0
  inactive : ric.active = false

/-- The Near-RT RIC as a labelled program. -/
def system (C : Type) : System (Ric C) (Action C) where
  Initial := Configured
  step := step

end Ns3.Oran.NearRtRic
