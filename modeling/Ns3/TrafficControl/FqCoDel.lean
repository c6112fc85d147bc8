import Ns3.Semantics.Run
import Ns3.TrafficControl.CoDel

/-!
# FqCoDel

Deficit round robin over the queues of the flows. A flow is new when a packet comes while it is
inactive, old when it has used up its deficit or has been found empty once, and inactive when it is
found empty again.
-/

namespace Ns3.TrafficControl

open Semantics

inductive FlowStatus where
  | inactive
  | newFlow
  | oldFlow
  deriving DecidableEq

structure FqCoDelFlow where
  deficit : Int := 0
  status : FlowStatus := .inactive
  index : Nat
  queueDisc : CoDelQueueDisc := {}
  deriving DecidableEq

namespace FqCoDelFlow

variable (flow : FqCoDelFlow)

/-- What is passed as `int32_t`. -/
def toInt32 (value : Int) : Int :=
  value.bmod (2 ^ 32)

def setDeficit (deficit : Nat) : FqCoDelFlow :=
  { flow with deficit := toInt32 deficit }

def increaseDeficit (deficit : Int) : FqCoDelFlow :=
  { flow with deficit := flow.deficit + toInt32 deficit }

def setStatus (status : FlowStatus) : FqCoDelFlow :=
  { flow with status }

@[simp] theorem setDeficit_queueDisc (deficit : Nat) : (flow.setDeficit deficit).queueDisc = flow.queueDisc := by
  cases flow
  rfl

@[simp] theorem setDeficit_status (deficit : Nat) : (flow.setDeficit deficit).status = flow.status := by
  cases flow
  rfl

@[simp] theorem setStatus_queueDisc (status : FlowStatus) : (flow.setStatus status).queueDisc = flow.queueDisc := rfl

@[simp] theorem setStatus_status (status : FlowStatus) : (flow.setStatus status).status = status := rfl

end FqCoDelFlow

structure FqCoDelConfig where
  flows : Nat
  setWays : Nat
  quantum : Nat
  dropBatchSize : Nat
  /-- In packets: the unit cannot be changed. -/
  maxSize : Nat
  enableSetAssociativeHash : Bool
  codel : CoDelConfig

structure FqCoDelQueueDisc where
  /-- The classes, in the order in which they have been added. -/
  classes : List FqCoDelFlow := []
  flowsIndices : Nat -> Option Nat := fun _ => none
  tags : Nat -> Option Nat := fun _ => none
  newFlows : List Nat := []
  oldFlows : List Nat := []
  nPackets : Nat := 0

/-- A loop of `DoDequeue` that comes round again, or what is returned. -/
inductive Round where
  | again (disc : FqCoDelQueueDisc)
  | done (item : Option QueueDiscItem) (disc : FqCoDelQueueDisc)

namespace FqCoDelQueueDisc

variable (config : FqCoDelConfig) (time : Nat) (disc : FqCoDelQueueDisc)

variable (number : Nat)

def modifyClass (change : FqCoDelFlow -> FqCoDelFlow) : FqCoDelQueueDisc :=
  { disc with classes := disc.classes.modify number change }

def queueAt : List QueueDiscItem :=
  (disc.classes[number]?.map fun flow => flow.queueDisc.queue).getD []

def statusAt : Option FlowStatus :=
  disc.classes[number]?.map FqCoDelFlow.status

/-- A child with another queue: its callbacks have counted what came and went. -/
def setQueueDisc (queueDisc : CoDelQueueDisc) : FqCoDelQueueDisc :=
  { disc.modifyClass number fun flow => { flow with queueDisc } with
    nPackets := disc.nPackets + queueDisc.queue.length - (disc.queueAt number).length }

/-- The queue has not been created, is associated with this flow or is inactive. -/
def usable (flowHash i : Nat) : Bool :=
  match disc.flowsIndices i with
  | none => true
  | some number => disc.tags i = some flowHash || disc.statusAt number = some .inactive

variable (flowHash : Nat)

def outerHash : Nat :=
  flowHash % config.flows - flowHash % config.flows % config.setWays

/-- The first queue of the set that can be used, if there is one. -/
def firstUsable : Option Nat :=
  (List.range' (outerHash config flowHash) config.setWays).find? (disc.usable flowHash)

/-- The index that `SetAssociativeHash` returns, which it also tags. -/
def setAssociativeHash : Nat :=
  (disc.firstUsable config flowHash).getD (outerHash config flowHash)

def indexOf : Nat :=
  if config.enableSetAssociativeHash then disc.setAssociativeHash config flowHash else flowHash % config.flows

def tagged : FqCoDelQueueDisc :=
  if config.enableSetAssociativeHash then
    { disc with tags := Function.update disc.tags (disc.setAssociativeHash config flowHash) (some flowHash) }
  else disc

/-- A new flow queue where there is none for the index. -/
def withFlow (h : Nat) : FqCoDelQueueDisc :=
  if (disc.flowsIndices h).isNone then
    { disc with
      classes := disc.classes ++ [{ index := h }]
      flowsIndices := Function.update disc.flowsIndices h (some disc.classes.length) }
  else disc

def activate : FqCoDelQueueDisc :=
  if disc.statusAt number = some .inactive then
    { disc.modifyClass number fun flow => (flow.setStatus .newFlow).setDeficit config.quantum with
      newFlows := disc.newFlows ++ [number] }
  else disc

def enqueueTo (item : QueueDiscItem) : FqCoDelQueueDisc :=
  match disc.classes[number]? with
  | none => disc
  | some flow => disc.setQueueDisc number (flow.queueDisc.enqueue time config.maxSize item)

/-- The class with the most bytes, the first of them, and how many. -/
def fattest (index maxBacklog i : Nat) : List FqCoDelFlow -> Nat × Nat
  | [] => (index, maxBacklog)
  | flow :: rest =>
    if bytesOf flow.queueDisc.queue > maxBacklog then fattest i (bytesOf flow.queueDisc.queue) (i + 1) rest
    else fattest index maxBacklog (i + 1) rest

/-- The packets that are left; there must be one to drop, and its bytes must have been counted. -/
def dropFrom (batch threshold count len : Nat) : List QueueDiscItem -> Option (List QueueDiscItem)
  | [] => none
  | item :: rest =>
    let len := (len + item.size) % 2 ^ 32
    if bytesOf (item :: rest) < item.size then none
    else if count + 1 < batch ∧ len < threshold then dropFrom batch threshold (count + 1) len rest
    else some rest

def fqCoDelDrop : Option FqCoDelQueueDisc :=
  let fat := fattest 0 0 0 disc.classes
  disc.classes[fat.1]?.bind fun flow =>
    (dropFrom config.dropBatchSize (fat.2 >>> 1) 0 0 flow.queueDisc.queue).map fun queue =>
      disc.setQueueDisc fat.1 { flow.queueDisc with queue }

/-- `DoEnqueue`; a packet that no filter matches is dropped. -/
def doEnqueue (item : QueueDiscItem) : Option FqCoDelQueueDisc :=
  match item.flowHash with
  | none => some disc
  | some flowHash =>
    let h := disc.indexOf config flowHash
    let disc := (disc.tagged config flowHash).withFlow h
    (disc.flowsIndices h).bind fun number =>
      let disc := (disc.activate config number).enqueueTo config time number item
      -- `m_nPackets` is a `uint32_t`
      if config.maxSize < disc.nPackets % 2 ^ 32 then disc.fqCoDelDrop config else some disc

/-- The flow at the front has been found empty. -/
def retire : FqCoDelQueueDisc :=
  match disc.newFlows with
  | _ :: rest =>
    { disc.modifyClass number fun flow => flow.setStatus .oldFlow with
      newFlows := rest
      oldFlows := disc.oldFlows ++ [number] }
  | [] =>
    { disc.modifyClass number fun flow => flow.setStatus .inactive with oldFlows := disc.oldFlows.tail }

def serve : Option Round :=
  disc.classes[number]?.bind fun flow => (flow.queueDisc.dequeue config.codel time).map fun result =>
    let disc := disc.setQueueDisc number result.2
    match result.1 with
    | some item => .done (some item) (disc.modifyClass number fun flow => flow.increaseDeficit (-item.size))
    | none => .again (disc.retire number)

/-- A round of the loop over the new flows. -/
def newRound (rest : List Nat) : Option Round :=
  disc.classes[number]?.bind fun flow =>
    if flow.deficit ≤ 0 then
      some (.again { disc.modifyClass number fun flow => (flow.increaseDeficit config.quantum).setStatus .oldFlow with
          newFlows := rest
          oldFlows := disc.oldFlows ++ [number] })
    else disc.serve config time number

/-- A round of the loop over the old flows. -/
def oldRound (rest : List Nat) : Option Round :=
  disc.classes[number]?.bind fun flow =>
    if flow.deficit ≤ 0 then
      some (.again
        { disc.modifyClass number fun flow => flow.increaseDeficit config.quantum with oldFlows := rest ++ [number] })
    else disc.serve config time number

/-- One round of the loop that is running. The outer loop, which goes on after a flow has been found
empty, runs both from the beginning. -/
def round : Option Round :=
  match disc.newFlows with
  | number :: rest => disc.newRound config time number rest
  | [] =>
    match disc.oldFlows with
    | number :: rest => disc.oldRound config time number rest
    | [] => some (.done none disc)

/-- `DoDequeue`, with a bound on the rounds. -/
def doDequeue : Nat -> FqCoDelQueueDisc -> Option (Option QueueDiscItem × FqCoDelQueueDisc)
  | 0, _ => none
  | fuel + 1, disc =>
    (disc.round config time).bind fun
      | .again disc => doDequeue fuel disc
      | .done item disc => some (item, disc)

end FqCoDelQueueDisc

namespace FqCoDel

/-- The queue disc, what has left it, and the flows whose tag went to another one while all queues
of their set were in use. -/
structure State where
  disc : FqCoDelQueueDisc := {}
  arrivals : Nat := 0
  departed : List QueueDiscItem := []
  overwritten : List Nat := []

inductive Action where
  | enqueue (time : Nat) (item : QueueDiscItem)
  | dequeue (time fuel : Nat)

/-- The tag that an enqueue takes from another flow. -/
def overwrites (config : FqCoDelConfig) (disc : FqCoDelQueueDisc) (item : QueueDiscItem) : List Nat :=
  match item.flowHash with
  | none => []
  | some flowHash =>
    if config.enableSetAssociativeHash ∧ disc.firstUsable config flowHash = none then
      (disc.tags (FqCoDelQueueDisc.outerHash config flowHash)).toList
    else []

def step (config : FqCoDelConfig) (state : State) : Action -> Option State
  | .enqueue time item =>
    (state.disc.doEnqueue config time { item with arrival := state.arrivals }).map fun disc =>
      { state with
        disc
        arrivals := state.arrivals + 1
        overwritten := overwrites config state.disc item ++ state.overwritten }
  | .dequeue time fuel =>
    (FqCoDelQueueDisc.doDequeue config time fuel state.disc).map fun result =>
      { state with disc := result.2, departed := state.departed ++ result.1.toList }

def system (config : FqCoDelConfig) : System State Action where
  Initial state := state = {}
  step := step config

end FqCoDel
end Ns3.TrafficControl
