import Ns3.Oran.DataRepository.Model
import Ns3.Semantics.Booking
import Ns3.Semantics.Run

/-!
# Load-aware handover modules

`OranLmNr2NrRsrpHandoverWithCellLoad` and `OranLmNr2NrRsrpHandoverWithTnNtn` have the same
`GetHandoverCommands` up to a `Strategy`: which measurements they look at, how they pick a target
and what they take for a full cell. `getHandoverCommands_booked` reads a run as bookings of cells;
from it `Strategy.bounded` bounds every cell's load.
-/

namespace Ns3.Oran.Handover

open Ns3.Semantics Ns3.Semantics.Booking Ns3.Oran.DataRepository List
open Std (TreeMap)

/-- The operations and constants of `double` the modules use. -/
class Decibel (D : Type) where
  lt : D -> D -> Bool
  le : D -> D -> Bool
  add : D -> D -> D
  /-- `-DBL_MAX`. -/
  lowest : D
  /-- `std::isfinite`. -/
  isfinite : D -> Bool
  /-- The literal `-500.0`. -/
  minus500 : D

/-- `std::sort`: some permutation, ordered if the comparison is a strict weak order on the elements.
-/
structure StdSort where
  sort : {α : Type} -> (α -> α -> Bool) -> List α -> List α
  perm : ∀ {α : Type} (before : α -> α -> Bool) (list : List α), (sort before list).Perm list
  ordered : ∀ {α : Type} (before : α -> α -> Bool) (list : List α),
    (∀ first ∈ list, ∀ second ∈ list, before first second = true -> before second first = false) ->
    (∀ first ∈ list, ∀ second ∈ list, ∀ third ∈ list,
      before second first = false -> before third second = false -> before third first = false) ->
    (sort before list).Pairwise fun first second => before second first = false

/-- Insertion sort is such a sort. -/
def StdSort.insertion : StdSort where
  sort before list := list.insertionSort fun first second => before second first = false
  perm before list := perm_insertionSort _ list
  ordered {α} before list asymmetric transitive := by
    -- The comparison orders the members of the list, so they are sorted as members.
    let later (first second : { member // member ∈ list }) : Prop := before second.1 first.1 = false
    have total : Std.Total later := by
      refine ⟨fun first second => ?_⟩
      cases after : before second.1 first.1 with
      | false => exact .inl after
      | true => exact .inr (asymmetric _ second.2 _ first.2 after)
    have trans : IsTrans _ later :=
      ⟨fun first second third one two => transitive _ first.2 _ second.2 _ third.2 one two⟩
    have sorted := pairwise_insertionSort later list.attach
    have same := map_insertionSort later (fun first second => before second first = false) Subtype.val list.attach
      fun _ _ _ _ => Iff.rfl
    rw [attach_map_subtype_val] at same
    rw [← same]
    exact pairwise_map.mpr sorted

/-- A tuple of `GetNrUeRsrpRsrq`: RNTI, cell, RSRP, RSRQ, serving, carrier. -/
abbrev Measured (D : Type) := UInt16 × UInt16 × D × D × Bool × UInt8

/-- `UeInfo`. -/
structure UeInfo where
  nodeId : UInt64
  cellId : UInt16
  rnti : UInt16

/-- `GnbInfo`. -/
structure GnbInfo where
  nodeId : UInt64
  cellId : UInt16

/-- The attributes both modules have, and `m_cellCapacityMap`. -/
structure Settings (D : Type) where
  rsrpThreshold : D
  warmup : Int
  minHoInterval : Int
  hoAttemptTimeout : Int
  timeToTrigger : Int
  lowRsrpRecheck : Int
  maxUesPerCell : UInt32
  tryNextBest : Bool
  minAcceptableRsrpDbm : D
  cellCapacityMap : TreeMap UInt16 UInt32

/-- The static maps of `GetHandoverCommands`. -/
structure Statics where
  lastHoCmdTime : TreeMap UInt64 Int
  pendingHoTarget : TreeMap UInt64 UInt16
  lowRsrpBlockUntil : TreeMap UInt64 Int
  tttState : TreeMap UInt64 (UInt16 × Int)

/-- What one run of `GetHandoverCommands` is given. -/
structure Call (D : Type) where
  now : Int
  data : Repository D
  ueInfos : List UeInfo
  gnbInfos : List GnbInfo
  stdSort : StdSort

/-- A handover command, with the UE and the time it was issued for. -/
structure Issued where
  time : Int
  ue : UInt64
  targetE2NodeId : UInt64
  targetRnti : UInt16
  targetCellId : UInt16
  deriving DecidableEq

/-- The loads of cells by cell id. -/
abbrev LoadMap := TreeMap UInt16 UInt32

variable {D : Type}

variable (settings : Settings D)

/-- `GetCellCap`. -/
def getCellCap (cellId : UInt16) : UInt32 :=
  match settings.cellCapacityMap[cellId]? with
  | some cap => cap
  | none => settings.maxUesPerCell

variable (now : Int)

variable (statics : Statics)

/-- Drop the pending handovers whose attempt has timed out. -/
def prunePending : Statics :=
  { statics with
    pendingHoTarget := statics.pendingHoTarget.filter fun ue _ =>
      match statics.lastHoCmdTime[ue]? with
      | none => false
      | some time => !(settings.hoAttemptTimeout ≤ now - time) }

/-- The first serving measurement on carrier 0, as cell and RNTI. -/
def firstServing (measured : List (Measured D)) : UInt16 × UInt16 :=
  match measured.find? fun (_, _, _, _, isServing, ccId) => ccId = 0 && isServing with
  | some (rnti, cellId, _) => (cellId, rnti)
  | none => (0, 0)

/-- The cell a UE is counted in. -/
def loadCell (call : Call D) (ueInfo : UeInfo) : Option UInt16 :=
  let (servingCellId, servingRnti) := firstServing (getNrUeRsrpRsrq call.data ueInfo.nodeId)
  if servingCellId ≠ 0 && servingRnti ≠ 0 then
    some servingCellId
  else if ueInfo.cellId ≠ 0 then
    some ueInfo.cellId
  else
    none

/-- `realLoad`, once all UEs are counted. -/
def realLoad (call : Call D) : LoadMap :=
  call.ueInfos.foldl (fun counts ueInfo =>
    match loadCell call ueInfo with
    | some cellId => increment counts cellId
    | none => counts)
    (call.gnbInfos.foldl (fun counts gnb => counts.insert gnb.cellId 0) ∅)

/-- `CellKnown`. -/
def cellKnown (gnbInfos : List GnbInfo) (cellId : UInt16) : Bool :=
  gnbInfos.any fun gnb => gnb.cellId = cellId

/-- `GetServingGnbNodeId`. -/
def getServingGnbNodeId (gnbInfos : List GnbInfo) (servingCellId : UInt16) : UInt64 :=
  match gnbInfos.find? fun gnb => gnb.cellId = servingCellId with
  | some gnb => gnb.nodeId
  | none => 0

/-- What a module collects from the measurements of a UE. -/
structure Observation (D : Type) where
  servingRsrp : D
  servingCellId : UInt16
  servingRnti : UInt16
  bestRsrpPerCell : TreeMap UInt16 D

/-- Keep the best RSRP seen of a cell. -/
def keepBest [Decibel D] (best : TreeMap UInt16 D) (cellId : UInt16) (rsrp : D) : TreeMap UInt16 D :=
  match best[cellId]? with
  | none => best.insert cellId rsrp
  | some old => if Decibel.lt old rsrp then best.insert cellId rsrp else best

/-- The outcome of the search for a target. -/
inductive Choice where
  | keep
  | lowRsrp
  | target (cellId : UInt16)
  deriving DecidableEq

/-- What the two modules do differently. A chosen target is one the policy admits
under the loads the choice was made with, and booking it counts it. -/
structure Strategy (D : Type) where
  policy : Policy UInt16
  observe : List (Measured D) -> Observation D
  usable : Observation D -> Bool
  choose : Call D -> Observation D -> LoadMap -> Choice
  book : LoadMap -> UInt16 -> LoadMap
  chosen_admitted : ∀ {call seen effectiveLoad cellId}, choose call seen effectiveLoad = .target cellId ->
      policy.admits cellId effectiveLoad[cellId]? = true
  book_admitted : ∀ {effectiveLoad : LoadMap} {cellId}, policy.admits cellId effectiveLoad[cellId]? = true ->
      book effectiveLoad cellId = increment effectiveLoad cellId

/-- The variables of the loop over the UEs. -/
structure Progress where
  statics : Statics
  effectiveLoad : LoadMap
  commands : List Issued

variable (ue : UInt64)

/-- Whether a UE is still in its low-RSRP backoff. -/
def inBackoff : Bool :=
  match statics.lowRsrpBlockUntil[ue]? with
  | some recheck => now < recheck
  | none => false

/-- Whether a UE has an attempt pending or cools down after one. -/
def recentlyCommanded : Bool :=
  match statics.lastHoCmdTime[ue]? with
  | none => false
  | some time =>
    (statics.pendingHoTarget.contains ue && now - time < settings.hoAttemptTimeout) ||
      now - time < settings.minHoInterval

/-- The gates before a UE is looked at: warm-up, low-RSRP backoff, a pending
handover and the cooldown. An expired backoff is erased. -/
def passGates : Statics × Bool :=
  if now < settings.warmup then
    (statics, false)
  else if inBackoff now statics ue then
    (statics, false)
  else
    ({ statics with lowRsrpBlockUntil := statics.lowRsrpBlockUntil.erase ue },
      !recentlyCommanded settings now statics ue)

/-- Clear the pending handover of a UE that reached its target. -/
def clearReached (servingCellId : UInt16) : Statics :=
  if statics.pendingHoTarget[ue]? = some servingCellId then
    { statics with pendingHoTarget := statics.pendingHoTarget.erase ue }
  else
    statics

/-- The time-to-trigger gate, which restarts when the candidate changes. -/
def passTtt
    (chosenCell : UInt16) : Statics × Bool :=
  match statics.tttState[ue]? with
  | some (candidate, since) =>
    if candidate = chosenCell then
      (statics, settings.timeToTrigger ≤ now - since)
    else
      ({ statics with tttState := statics.tttState.insert ue (chosenCell, now) }, settings.timeToTrigger ≤ now - now)
  | none =>
    ({ statics with tttState := statics.tttState.insert ue (chosenCell, now) }, settings.timeToTrigger ≤ now - now)

/-- No target this time: the time to trigger starts over. -/
def clearTtt : Statics :=
  { statics with tttState := statics.tttState.erase ue }

variable (strategy : Strategy D)

/-- Issue a command and reserve its target. -/
def issue (progress : Progress) (command : Issued) : Progress where
  statics :=
    { progress.statics with
      tttState := progress.statics.tttState.erase command.ue
      lastHoCmdTime := progress.statics.lastHoCmdTime.insert command.ue command.time
      pendingHoTarget := progress.statics.pendingHoTarget.insert command.ue command.targetCellId }
  effectiveLoad := strategy.book progress.effectiveLoad command.targetCellId
  commands := progress.commands ++ [command]

/-- A UE with a usable serving cell: choose a target and issue the command. -/
def handOver (call : Call D)
    (progress : Progress) (ue : UInt64) (seen : Observation D) : Progress :=
  let servingGnbNodeId := getServingGnbNodeId call.gnbInfos seen.servingCellId
  if servingGnbNodeId = 0 then
    progress
  else
    match strategy.choose call seen progress.effectiveLoad with
    | .lowRsrp =>
      { progress with
        statics := clearTtt { progress.statics with
          lowRsrpBlockUntil := progress.statics.lowRsrpBlockUntil.insert ue
            (call.now + settings.lowRsrpRecheck) } ue }
    | .keep => { progress with statics := clearTtt progress.statics ue }
    | .target chosenCell =>
      let (statics, elapsed) := passTtt settings call.now progress.statics ue chosenCell
      if elapsed then
        issue strategy { progress with statics := statics }
          ⟨call.now, ue, servingGnbNodeId, seen.servingRnti, chosenCell⟩
      else
        { progress with statics := statics }

/-- The body of the loop over the UEs. -/
def considerUe (call : Call D)
    (progress : Progress) (ueInfo : UeInfo) : Progress :=
  let (statics, passed) := passGates settings call.now progress.statics ueInfo.nodeId
  if passed then
    let seen := strategy.observe (getNrUeRsrpRsrq call.data ueInfo.nodeId)
    if strategy.usable seen then
      handOver settings strategy call
        { progress with statics := clearReached statics ueInfo.nodeId seen.servingCellId }
        ueInfo.nodeId seen
    else
      { progress with statics := statics }
  else
    { progress with statics := statics }

/-- The handovers still pending at the start of a run. -/
def stillPending (call : Call D) (statics : Statics) : List (UInt64 × UInt16) :=
  (prunePending settings call.now statics).pendingHoTarget.toList

/-- `effectiveLoad` before the first UE: the real load and the reservations. -/
def reservedLoad (call : Call D) (statics : Statics) : LoadMap :=
  ((stillPending settings call statics).map Prod.snd).foldl (reserve strategy.policy) (realLoad call)

/-- `GetHandoverCommands`: the static maps it leaves and the commands it returns. -/
def getHandoverCommands (call : Call D)
    (statics : Statics) : Progress :=
  call.ueInfos.foldl (considerUe settings strategy call)
    ⟨prunePending settings call.now statics, reservedLoad settings strategy call statics, []⟩

/-- No command was issued and no handover became pending. -/
structure Quiet (before after : Statics) : Prop where
  times : after.lastHoCmdTime = before.lastHoCmdTime
  pending : ∀ {ue : UInt64} {cellId : UInt16}, after.pendingHoTarget[ue]? = some cellId ->
    before.pendingHoTarget[ue]? = some cellId

theorem Quiet.refl : Quiet statics statics :=
  ⟨rfl, id⟩

theorem Quiet.trans {first second third : Statics} (one : Quiet first second)
    (two : Quiet second third) : Quiet first third :=
  ⟨two.times.trans one.times, fun found => one.pending (two.pending found)⟩

theorem passGates_quiet : Quiet statics (passGates settings now statics ue).1 := by
  unfold passGates
  split
  · exact .refl statics
  · split
    · exact .refl statics
    · exact ⟨rfl, id⟩

theorem clearReached_quiet (servingCellId : UInt16) :
    Quiet statics (clearReached statics ue servingCellId) := by
  unfold clearReached
  split
  · refine ⟨rfl, fun {other cellId} found => ?_⟩
    rw [TreeMap.getElem?_erase] at found
    exact (Option.ite_none_left_eq_some.mp found).2
  · exact .refl statics

theorem passTtt_quiet
    (chosenCell : UInt16) : Quiet statics (passTtt settings now statics ue chosenCell).1 := by
  unfold passTtt
  split
  · split <;> exact ⟨rfl, id⟩
  · exact ⟨rfl, id⟩

/-- Considering a UE either changes no load, or issues one command whose target
was admitted under the effective load and is counted in it. -/
inductive Considered (strategy : Strategy D) (now : Int) (progress next : Progress) : Prop where
  | skipped (quiet : Quiet progress.statics next.statics) (load : next.effectiveLoad = progress.effectiveLoad)
      (commands : next.commands = progress.commands)
  | issued (command : Issued) (statics : Statics) (quiet : Quiet progress.statics statics) (time : command.time = now)
      (admitted : strategy.policy.admits command.targetCellId progress.effectiveLoad[command.targetCellId]? = true)
      (step : next = issue strategy { progress with statics := statics } command)

theorem handOver_considered (call : Call D)
    (progress : Progress) (ue : UInt64) (seen : Observation D) :
    Considered strategy call.now progress (handOver settings strategy call progress ue seen) := by
  unfold handOver
  dsimp only
  split
  · exact .skipped (.refl _) rfl rfl
  · split
    · exact .skipped ⟨rfl, id⟩ rfl rfl
    · exact .skipped ⟨rfl, id⟩ rfl rfl
    · next chosenCell chosen =>
        have quiet := passTtt_quiet settings call.now progress.statics ue chosenCell
        split
        · exact .issued _ _ quiet rfl (strategy.chosen_admitted chosen) rfl
        · exact .skipped quiet rfl rfl

theorem Considered.after {strategy : Strategy D} {now : Int} {progress next : Progress}
    {statics : Statics} (before : Quiet progress.statics statics)
    (considered : Considered strategy now { progress with statics := statics } next) :
    Considered strategy now progress next := by
  cases considered with
  | skipped quiet load commands => exact .skipped (before.trans quiet) load commands
  | issued command changed quiet time admitted step =>
    exact .issued command changed (before.trans quiet) time admitted step

theorem considerUe_considered (call : Call D)
    (progress : Progress) (ueInfo : UeInfo) :
    Considered strategy call.now progress (considerUe settings strategy call progress ueInfo) := by
  have gates := passGates_quiet settings call.now progress.statics ueInfo.nodeId
  unfold considerUe
  dsimp only
  split
  · split
    · exact (handOver_considered settings strategy call _ _ _).after (gates.trans (clearReached_quiet _ _ _))
    · exact .skipped gates rfl rfl
  · exact .skipped gates rfl rfl

theorem getHandoverCommands_booked (call : Call D)
    (statics : Statics) :
    Booked strategy.policy (reservedLoad settings strategy call statics)
      ((getHandoverCommands settings strategy call statics).commands.map Issued.targetCellId)
      (getHandoverCommands settings strategy call statics).effectiveLoad := by
  unfold getHandoverCommands
  induction call.ueInfos using reverseRecOn with
  | nil => exact .none
  | append_singleton before last ih =>
    rw [foldl_append, foldl_cons, foldl_nil]
    generalize before.foldl (considerUe settings strategy call) _ = progress at *
    rcases considerUe_considered settings strategy call progress last with
      ⟨-, load, commands⟩ | ⟨command, statics, -, -, admitted, step⟩
    · rw [load, commands]
      exact ih
    · rw [step]
      simp only [issue, map_append, map_cons, map_nil, strategy.book_admitted admitted]
      exact ih.more admitted

/-- Whether a UE is counted in the real load of a cell. -/
def countedIn (call : Call D) (ue : UInt64) (cellId : UInt16) : Bool :=
  call.ueInfos.any fun ueInfo => ueInfo.nodeId = ue && loadCell call ueInfo = some cellId

/-- How many commands of a run target a cell. -/
def issuedFor (call : Call D) (statics : Statics)
    (cellId : UInt16) : Nat :=
  ((getHandoverCommands settings strategy call statics).commands.map Issued.targetCellId).count cellId

/-- The static maps after some runs, and all commands these returned. -/
structure Session where
  statics : Statics
  commands : List Issued

/-- Runs of a module whose attributes may change from run to run. -/
def runs {Config : Type} (settings : Config -> Settings D) (strategy : Config -> Strategy D) :
    System Session (Config × Call D) where
  Initial session := session = ⟨⟨∅, ∅, ∅, ∅⟩, []⟩
  step session action :=
    let progress := getHandoverCommands (settings action.1) (strategy action.1) action.2 session.statics
    some ⟨progress.statics, session.commands ++ progress.commands⟩

end Ns3.Oran.Handover
