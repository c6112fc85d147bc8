import Ns3.Semantics.Run

/-!
# Logical channels of the scheduler

The scheduler keeps the sizes of the RLC queues of each channel, in groups. In the uplink a UE
reports the size of a whole group, and only the first channel of a group is stored.
-/

namespace Ns3.Nr

open Semantics

/-- `NrMacSchedulerLC`, with the sizes of its queues. -/
structure LogicalChannel where
  id : UInt8
  rlcTransmissionQueueSize : UInt32 := 0
  rlcRetransmissionQueueSize : UInt32 := 0
  rlcStatusPduSize : UInt16 := 0
  deriving DecidableEq

inductive Link where
  | dl
  | ul
  deriving DecidableEq

structure DlRlcBufferReqParameters where
  logicalChannelIdentity : UInt8
  rlcTransmissionQueueSize : UInt32
  rlcRetransmissionQueueSize : UInt32
  rlcStatusPduSize : UInt16

namespace LogicalChannel

variable (lc : LogicalChannel)

/-- `Update`. -/
def update (params : DlRlcBufferReqParameters) : LogicalChannel :=
  { lc with
    rlcTransmissionQueueSize := params.rlcTransmissionQueueSize
    rlcRetransmissionQueueSize := params.rlcRetransmissionQueueSize
    rlcStatusPduSize := params.rlcStatusPduSize }

/-- The bytes in the queues. -/
def total : Nat :=
  lc.rlcStatusPduSize.toNat + lc.rlcRetransmissionQueueSize.toNat + lc.rlcTransmissionQueueSize.toNat

def rlcOverhead (type : Link) : UInt32 :=
  if lc.id = 1 ∧ type = .dl then 4 else 2

/-- A queue that is not empty is made large enough for a transmission opportunity of the RLC. -/
def minimumQueue (type : Link) (queue : UInt32) : UInt32 :=
  match type with
  | .ul => if 0 < queue ∧ queue < 12 then 12 else queue
  | .dl => if 0 < queue ∧ queue < 10 then 10 else queue

variable (size : UInt32)

/-- The part of `AssignedData` about the transmission queue, with the subtractions it makes. -/
def assignTransmission (type : Link) : LogicalChannel × List (UInt32 × UInt32) :=
  let available := size - lc.rlcOverhead type
  if available ≥ lc.rlcTransmissionQueueSize then
    ({ lc with rlcTransmissionQueueSize := 0 }, [(size, lc.rlcOverhead type)])
  else
    ({ lc with rlcTransmissionQueueSize := minimumQueue type (lc.rlcTransmissionQueueSize - available) },
      [(size, lc.rlcOverhead type), (lc.rlcTransmissionQueueSize, available)])

/-- Whether an opportunity is used for the status PDU. -/
def sendsStatus : Bool :=
  0 < lc.rlcStatusPduSize && lc.rlcStatusPduSize.toUInt32 ≤ size

def sendsRetransmission : Bool :=
  0 < lc.rlcRetransmissionQueueSize && lc.rlcRetransmissionQueueSize ≤ size

/-- `AssignedData` for a channel: the RLC sends its status first, then retransmissions, then new
data. -/
def assignedData (type : Link) : LogicalChannel × List (UInt32 × UInt32) :=
  if lc.sendsStatus size then ({ lc with rlcStatusPduSize := 0 }, [])
  else if lc.sendsRetransmission size then ({ lc with rlcRetransmissionQueueSize := 0 }, [])
  else if 0 < lc.rlcTransmissionQueueSize then lc.assignTransmission size type
  else (lc, [])

end LogicalChannel

/-- `NrMacSchedulerLCG`, by the map of its channels. -/
structure ChannelGroup where
  lcMap : List LogicalChannel := []
  deriving DecidableEq

namespace ChannelGroup

variable (lcg : ChannelGroup)

def contains (lcId : UInt8) : Bool :=
  lcg.lcMap.any fun lc => lc.id = lcId

def numOfLC : Nat :=
  lcg.lcMap.length

def insert (lc : LogicalChannel) : Option ChannelGroup :=
  if lcg.contains lc.id then none else some ⟨lcg.lcMap ++ [lc]⟩

/-- `UpdateInfo` of a channel. -/
def updateInfo (params : DlRlcBufferReqParameters) : Option ChannelGroup :=
  if lcg.contains params.logicalChannelIdentity then
    some ⟨lcg.lcMap.map fun lc => if lc.id = params.logicalChannelIdentity then lc.update params else lc⟩
  else none

/-- `UpdateInfo` of the whole group, which has one channel at most. -/
def updateQueueSize (lcgQueueSize : UInt32) : Option ChannelGroup :=
  if 1 < lcg.numOfLC then none
  else
    some ⟨lcg.lcMap.map fun lc =>
      { lc with rlcTransmissionQueueSize := lcgQueueSize / UInt32.ofNat lcg.numOfLC }⟩

/-- `AssignedData`, with the subtractions it makes. -/
def assignedData (lcId : UInt8) (size : UInt32) (type : Link) :
    Option (ChannelGroup × List (UInt32 × UInt32)) :=
  (lcg.lcMap.find? fun lc => lc.id = lcId).map fun found =>
    (⟨lcg.lcMap.map fun lc => if lc.id = lcId then (lc.assignedData size type).1 else lc⟩,
      (found.assignedData size type).2)

def releaseLC (lcId : UInt8) : ChannelGroup :=
  ⟨lcg.lcMap.filter fun lc => lc.id ≠ lcId⟩

end ChannelGroup

/-- `NrMacShortBsrCe::FromLevelToBytes`. -/
def fromLevelToBytes (bufferLevel : UInt8) : UInt32 :=
  ([0, 10, 14, 20, 28, 38, 53, 74, 102, 142, 198, 276, 384, 535, 745, 1038, 1446, 2014, 2806, 3909, 5446, 7587, 10570,
    14726, 20516, 28581, 39818, 55474, 77284, 107669, 150000] : List UInt32).getD bufferLevel.toNat (150000 * 8)

/-- `NrMacSchedulerUeInfo`, by its groups. -/
structure ChannelUe where
  dlLCG : UInt8 -> Option ChannelGroup := fun _ => none
  ulLCG : UInt8 -> Option ChannelGroup := fun _ => none

inductive Direction where
  | dl
  | ul
  | both
  deriving DecidableEq

structure LogicalChannelConfig where
  logicalChannelIdentity : UInt8
  logicalChannelGroup : UInt8
  direction : Direction
  deriving DecidableEq

def LogicalChannelConfig.isDl (lcConfig : LogicalChannelConfig) : Bool :=
  lcConfig.direction = .dl || lcConfig.direction = .both

def LogicalChannelConfig.isUl (lcConfig : LogicalChannelConfig) : Bool :=
  lcConfig.direction = .ul || lcConfig.direction = .both

namespace ChannelUe

variable (ue : ChannelUe)

variable (lcConfig : LogicalChannelConfig)

def configDl : Option ChannelUe :=
  let lcg := (ue.dlLCG lcConfig.logicalChannelGroup).getD {}
  (lcg.insert ⟨lcConfig.logicalChannelIdentity, 0, 0, 0⟩).map fun lcg =>
    { ue with dlLCG := Function.update ue.dlLCG lcConfig.logicalChannelGroup (some lcg) }

/-- A channel is only created if it is the first one of its group. -/
def configUl : Option ChannelUe :=
  let lcg := (ue.ulLCG lcConfig.logicalChannelGroup).getD {}
  let created := if lcg.numOfLC = 0 then lcg.insert ⟨lcConfig.logicalChannelIdentity, 0, 0, 0⟩ else some lcg
  created.map fun lcg => { ue with ulLCG := Function.update ue.ulLCG lcConfig.logicalChannelGroup (some lcg) }

/-- The part of `DoCschedLcConfigReq` about one channel. -/
def config : Option ChannelUe :=
  (if lcConfig.isDl then ue.configDl lcConfig else some ue).bind fun ue =>
    if lcConfig.isUl then ue.configUl lcConfig else some ue

/-- A group without the channel, or none if it had no other one. -/
def releaseFrom (lcId : UInt8) (lcg : ChannelGroup) : Option ChannelGroup :=
  if (lcg.releaseLC lcId).lcMap = [] then none else some (lcg.releaseLC lcId)

/-- `ReleaseLC`. -/
def releaseLC (lcId : UInt8) : ChannelUe where
  dlLCG id := (ue.dlLCG id).bind (releaseFrom lcId)
  ulLCG id := (ue.ulLCG id).bind (releaseFrom lcId)

/-- The part of `BSRReceivedFromUe` about one group. -/
def bsrOfGroup (lcg bsrId : UInt8) : Option ChannelUe :=
  match ue.ulLCG lcg with
  | none => some ue
  | some group =>
    (group.updateQueueSize (fromLevelToBytes bsrId)).map fun group =>
      { ue with ulLCG := Function.update ue.ulLCG lcg (some group) }

/-- `BSRReceivedFromUe`, with the levels of the four groups. -/
def bsrReceivedFromUe (bufferStatus : Fin 4 -> UInt8) : Option ChannelUe :=
  (ue.bsrOfGroup 0 (bufferStatus 0)).bind fun ue => (ue.bsrOfGroup 1 (bufferStatus 1)).bind fun ue =>
    (ue.bsrOfGroup 2 (bufferStatus 2)).bind fun ue => ue.bsrOfGroup 3 (bufferStatus 3)

def groups : Link -> UInt8 -> Option ChannelGroup
  | .dl => ue.dlLCG
  | .ul => ue.ulLCG

def setGroup (type : Link) (lcg : UInt8) (group : ChannelGroup) : ChannelUe :=
  match type with
  | .dl => { ue with dlLCG := Function.update ue.dlLCG lcg (some group) }
  | .ul => { ue with ulLCG := Function.update ue.ulLCG lcg (some group) }

end ChannelUe

/-- The UEs, and beside them the channels that are configured for the uplink and not released, with
their groups. -/
structure ChannelScheduler where
  ueMap : UInt16 -> Option ChannelUe
  configured : UInt16 -> List (UInt8 × UInt8) := fun _ => []

namespace ChannelScheduler

inductive Action where
  | lcConfig (rnti : UInt16) (logicalChannelConfigList : List LogicalChannelConfig)
  | lcRelease (rnti : UInt16) (logicalChannelIdentity : List UInt8)
  /-- The group is the first one of the iteration that contains the channel. -/
  | dlRlcBuffer (rnti : UInt16) (lcg : UInt8) (params : DlRlcBufferReqParameters)
  | bsr (rnti : UInt16) (bufferStatus : Fin 4 -> UInt8)
  | assignedData (rnti : UInt16) (type : Link) (lcg lcId : UInt8) (size : UInt32)

def configuredUl (configs : List LogicalChannelConfig) : List (UInt8 × UInt8) :=
  (configs.filter LogicalChannelConfig.isUl).map fun lcConfig =>
    (lcConfig.logicalChannelGroup, lcConfig.logicalChannelIdentity)

/-- What an action makes of the entry of its UE. -/
def ueStep (ue : ChannelUe) (configured : List (UInt8 × UInt8)) : Action -> Option (ChannelUe × List (UInt8 × UInt8))
  | .lcConfig _ configs => (configs.foldlM ChannelUe.config ue).map fun ue => (ue, configured ++ configuredUl configs)
  | .lcRelease _ lcIds =>
    some (lcIds.foldl ChannelUe.releaseLC ue, configured.filter fun channel => channel.2 ∉ lcIds)
  | .dlRlcBuffer _ lcg params =>
    (ue.dlLCG lcg).bind fun group => (group.updateInfo params).map fun group => (ue.setGroup .dl lcg group, configured)
  | .bsr _ bufferStatus => (ue.bsrReceivedFromUe bufferStatus).map fun ue => (ue, configured)
  | .assignedData _ type lcg lcId size =>
    (ue.groups type lcg).bind fun group => (group.assignedData lcId size type).map fun result =>
      (ue.setGroup type lcg result.1, configured)

def Action.rnti : Action -> UInt16
  | .lcConfig rnti _ | .lcRelease rnti _ | .dlRlcBuffer rnti _ _ | .bsr rnti _ | .assignedData rnti _ _ _ _ => rnti

/-- Each request looks up its UE, and fails if there is none. -/
def step (scheduler : ChannelScheduler) (action : Action) : Option ChannelScheduler :=
  (scheduler.ueMap action.rnti).bind fun ue =>
    (ueStep ue (scheduler.configured action.rnti) action).map fun result =>
      { ueMap := Function.update scheduler.ueMap action.rnti (some result.1)
        configured := Function.update scheduler.configured action.rnti result.2 }

/-- UEs without channels. -/
def Initial (scheduler : ChannelScheduler) : Prop :=
  (∀ rnti ue, scheduler.ueMap rnti = some ue -> ue = {}) ∧ scheduler.configured = fun _ => []

def system : System ChannelScheduler Action where
  Initial := Initial
  step := step

end ChannelScheduler
end Ns3.Nr
