import Ns3.Semantics.Run
import Mathlib.Data.List.Perm.Basic

/-!
# SRS offsets

Each UE sends its SRS in the slots with its own offset in a period that all of them share. The
offsets that are not in use are kept in a list, and when it is empty the period grows and all UEs
get new offsets.
-/

namespace Ns3.Nr

open Semantics

inductive SrsFailure where
  /-- Offsets have already been given out. -/
  | alreadyStarted
  | notStandard
  /-- `NS_ASSERT(srs.m_isValid)`. -/
  | noOffset
  /-- `NS_ASSERT(ret)`. -/
  | notIncreased
  /-- The release of an RNTI that is not registered. -/
  | unknownUe
  /-- `NS_ASSERT(m_srsCtrlSymbols <= ulSymAvail)`. -/
  | noSymbols
  deriving DecidableEq

structure UeSrs where
  rnti : UInt16
  srsPeriodicity : Nat := 0
  srsOffset : Nat := 0
  deriving DecidableEq

def standardPeriodicity : List Nat :=
  [2, 4, 5, 8, 10, 16, 20, 32, 40, 64, 80, 160, 320, 640, 1280, 2560]

structure SchedulerSrs where
  periodicity : Nat := 0
  availableOffsetValues : List Nat := []
  /-- Whether the event of the shuffle is pending. -/
  shuffleEvent : Bool := false
  deriving DecidableEq

namespace SchedulerSrs

/-- A valid `SrsPeriodicityAndOffset`. -/
structure PeriodicityAndOffset where
  periodicity : Nat
  offset : Nat

variable (srs : SchedulerSrs)

/-- `AddUe`, which takes the last one of the available offsets. -/
def addUe : Option PeriodicityAndOffset × SchedulerSrs :=
  match srs.availableOffsetValues.getLast? with
  | none => (none, srs)
  | some offset =>
    (some ⟨srs.periodicity, offset⟩, { srs with availableOffsetValues := srs.availableOffsetValues.dropLast })

def removeUe (offset : Nat) : SchedulerSrs :=
  { srs with availableOffsetValues := srs.availableOffsetValues ++ [offset] }

def setStartingPeriodicity (start : Nat) : Except SrsFailure SchedulerSrs :=
  if srs.availableOffsetValues ≠ [] then .error .alreadyStarted
  else if start ∉ standardPeriodicity then .error .notStandard
  else .ok { periodicity := start, availableOffsetValues := List.range start, shuffleEvent := true }

/-- `ReassignSrsValue`, in the order in which the map is iterated. -/
def reassignSrsValue (srs : SchedulerSrs) : List UeSrs -> Except SrsFailure (SchedulerSrs × List UeSrs)
  | [] => .ok (srs, [])
  | ue :: ueMap =>
    match srs.addUe with
    | (none, _) => .error .noOffset
    | (some given, srs) =>
      (reassignSrsValue srs ueMap).map fun (srs, ueMap) =>
        (srs, { ue with srsPeriodicity := given.periodicity, srsOffset := given.offset } :: ueMap)

/-- `IncreasePeriodicity`. It returns false if there is no larger value. -/
def increasePeriodicity (ueMap : List UeSrs) : Except SrsFailure (SchedulerSrs × List UeSrs) :=
  let srs := { srs with availableOffsetValues := [] }
  match standardPeriodicity.find? fun value => srs.periodicity < value with
  | none => .error .notIncreased
  | some value => (srs.setStartingPeriodicity value).bind fun srs => srs.reassignSrsValue ueMap

def isMaxSrsReached : Bool :=
  srs.periodicity = 2560 ∧ srs.availableOffsetValues = []

end SchedulerSrs

/-- What `NrMacSchedulerNs3` keeps for the SRS. The entries of the map stand in the order in which
it is iterated. -/
structure SrsScheduler where
  schedulerSrs : SchedulerSrs
  ueMap : List UeSrs := []
  srsCtrlSymbols : UInt8 := 1
  srsSlotCounter : UInt32 := 0
  deriving DecidableEq

namespace SrsScheduler

variable (scheduler : SrsScheduler)

/-- The part of `DoCschedUeConfigReq` for an RNTI that is not registered. The map with the new entry
may be iterated in any order. -/
def doCschedUeConfigReq (rnti : UInt16) (ueMap : List UeSrs) : Except SrsFailure SrsScheduler :=
  match scheduler.schedulerSrs.addUe with
  | (none, srs) =>
    (srs.increasePeriodicity ueMap).map fun (srs, ueMap) => { scheduler with schedulerSrs := srs, ueMap := ueMap }
  | (some given, srs) =>
    .ok { scheduler with
      schedulerSrs := srs
      ueMap := ueMap.map fun ue =>
        if ue.rnti = rnti then { ue with srsPeriodicity := given.periodicity, srsOffset := given.offset } else ue }

def doCschedUeReleaseReq (rnti : UInt16) : Except SrsFailure SrsScheduler :=
  match scheduler.ueMap.find? fun ue => ue.rnti = rnti with
  | none => .error .unknownUe
  | some ue =>
    .ok { scheduler with
      schedulerSrs := scheduler.schedulerSrs.removeUe ue.srsOffset
      ueMap := scheduler.ueMap.filter fun ue => ue.rnti ≠ rnti }

/-- The DCIs of an SRS, each of one symbol. -/
structure SrsAllocation where
  rnti : UInt16
  symStart : List UInt8
  deriving DecidableEq

/-- The symbols of the DCIs, backwards from the one that the assignment has reached. -/
def srsSymbols (sym : UInt8) : Nat -> List UInt8
  | 0 => []
  | count + 1 => (sym - 1) :: srsSymbols (sym - 1) count

/-- The UE whose SRS is sent: the last one with the offset of the slot, or zero. The periodicity is
that of any UE. -/
def srsRnti : UInt16 :=
  match scheduler.ueMap with
  | [] => 0
  | first :: _ =>
    scheduler.ueMap.foldl (fun rnti ue =>
      if ue.srsOffset = scheduler.srsSlotCounter.toNat % first.srsPeriodicity then ue.rnti else rnti) 0

/-- `DoScheduleSrs`. -/
def doScheduleSrs (sym : UInt8) : Option SrsAllocation :=
  if scheduler.srsRnti = 0 then none else some ⟨scheduler.srsRnti, srsSymbols sym scheduler.srsCtrlSymbols.toNat⟩

/-- The part of `DoScheduleUlSlot` about the SRS. -/
def scheduleSrsSlot (sym ulSymAvail : UInt8) :
    Except SrsFailure (SrsScheduler × Option SrsAllocation) :=
  let scheduler := { scheduler with srsSlotCounter := scheduler.srsSlotCounter + 1 }
  if scheduler.srsCtrlSymbols ≤ ulSymAvail then .ok (scheduler, scheduler.doScheduleSrs sym) else .error .noSymbols

inductive Action where
  | ueConfig (rnti : UInt16) (ueMap : List UeSrs)
  | ueRelease (rnti : UInt16)
  | shuffle (offsets : List Nat)
  | srsSlot (sym ulSymAvail : UInt8)

def step : Action -> Option SrsScheduler
  | .ueConfig rnti ueMap =>
    -- RNTIs are not zero, and the RRC asks whether another UE has a place.
    if rnti = 0 ∨ rnti ∈ scheduler.ueMap.map UeSrs.rnti ∨ scheduler.schedulerSrs.isMaxSrsReached then none
    else if ueMap.Perm ({ rnti := rnti } :: scheduler.ueMap) then
      (scheduler.doCschedUeConfigReq rnti ueMap).toOption
    else none
  | .ueRelease rnti => (scheduler.doCschedUeReleaseReq rnti).toOption
  | .shuffle offsets =>
    if scheduler.schedulerSrs.shuffleEvent ∧ offsets.Perm scheduler.schedulerSrs.availableOffsetValues then
      some { scheduler with
        schedulerSrs :=
          { scheduler.schedulerSrs with availableOffsetValues := offsets, shuffleEvent := false } }
    else none
  | .srsSlot sym ulSymAvail => (scheduler.scheduleSrsSlot sym ulSymAvail).toOption.map Prod.fst

/-- A scheduler as it is created, with a periodicity and a number of symbols. -/
def Initial : Prop :=
  ∃ start srs srsCtrlSymbols, SchedulerSrs.setStartingPeriodicity {} start = .ok srs ∧
    scheduler = { schedulerSrs := srs, srsCtrlSymbols := srsCtrlSymbols }

def system : System SrsScheduler Action where
  Initial := Initial
  step := step

end SrsScheduler
end Ns3.Nr
