import Ns3.Oran.Handover.CellLoad
import Ns3.Oran.Handover.TnNtn

/-!
# No cell is overbooked

Both load-aware modules, over any sequence of runs with attributes that may
change from run to run. Which commands are pending in a run is told by the commands
that the runs before it returned; `Tracks` relates them to the static maps.
-/

namespace Ns3.Oran.Handover

open Ns3.Semantics Ns3.Semantics.Booking Ns3.Oran.DataRepository List
open TnNtn (TnNtnSettings)
open Std (TreeMap)

/-- A past run: when it was, how long an attempt lasted then, and what it returned. -/
structure PastRun where
  now : Int
  hoAttemptTimeout : Int
  commands : List Issued

/-- The attempt of a command has not timed out. -/
def Issued.underway (hoAttemptTimeout now : Int) (command : Issued) : Bool :=
  now - command.time < hoAttemptTimeout

/-- A command replaces the earlier one for its UE. -/
def supersede (pending : List Issued) (command : Issued) : List Issued :=
  pending.filter (fun other => other.ue ≠ command.ue) ++ [command]

/-- The pending commands after a run: of those pending before, the ones still underway, and those it
returned. -/
def PastRun.pending (pending : List Issued) (run : PastRun) : List Issued :=
  run.commands.foldl supersede (pending.filter (Issued.underway run.hoAttemptTimeout run.now))

variable {D : Type}

variable (history : List PastRun)

variable (settings : Settings D)

/-- The commands of the runs so far that are still pending at the start of a run. -/
def pendingCommands (call : Call D) : List Issued :=
  (history.foldl PastRun.pending []).filter (Issued.underway settings.hoAttemptTimeout call.now)

/-- How many pending commands target a cell their UE is not counted in yet. -/
def pendingFor (call : Call D) (cellId : UInt16) : Nat :=
  (pendingCommands history settings call).countP fun command =>
    command.targetCellId = cellId && !countedIn call command.ue cellId

/-- In this run no cell with a capacity is overbooked. -/
def NeverOverbooks (strategy : Strategy D) (call : Call D)
    (statics : Statics) : Prop :=
  ∀ cellId, 0 < getCellCap settings cellId ->
    (load (realLoad call) cellId).toNat + pendingFor history settings call cellId +
        issuedFor settings strategy call statics cellId ≤
      max (getCellCap settings cellId).toNat
        ((load (realLoad call) cellId).toNat + pendingFor history settings call cellId)

/-- The static maps hold a command. -/
structure Statics.Holds (statics : Statics) (command : Issued) : Prop where
  target : statics.pendingHoTarget[command.ue]? = some command.targetCellId
  time : statics.lastHoCmdTime[command.ue]? = some command.time

/-- The static maps hold the pending commands, one for each UE. -/
structure Tracks (pending : List Issued) (statics : Statics) : Prop where
  distinct : (pending.map Issued.ue).Nodup
  held : ∀ command ∈ pending, statics.Holds command

variable {settings : Settings D} {strategy : Strategy D} {call : Call D} {statics : Statics} {pending : List Issued}

theorem Tracks.prune (tracks : Tracks pending statics) : Tracks
    (pending.filter (Issued.underway settings.hoAttemptTimeout call.now)) (prunePending settings call.now statics) := by
  refine ⟨tracks.distinct.sublist (filter_sublist.map Issued.ue), fun command mem => ?_⟩
  obtain ⟨mem, underway⟩ := mem_filter.mp mem
  obtain ⟨target, time⟩ := tracks.held command mem
  refine ⟨?_, time⟩
  have stays : (settings.hoAttemptTimeout ≤ call.now - command.time) = False := by
    simpa [Issued.underway] using underway
  simp [prunePending, target, time, stays]

/-- The run reserves room for every pending command. -/
theorem Tracks.pendingFor_le {history : List PastRun} (tracks : Tracks (history.foldl PastRun.pending []) statics)
    (cellId : UInt16) :
    pendingFor history settings call cellId ≤ ((stillPending settings call statics).map Prod.snd).count cellId := by
  obtain ⟨distinct, held⟩ : Tracks (pendingCommands history settings call) (prunePending settings call.now statics) :=
    tracks.prune
  have among : (pendingCommands history settings call).map (fun command => (command.ue, command.targetCellId)) <+~
      stillPending settings call statics := by
    refine subperm_of_subset (.of_map Prod.fst (by rwa [map_map])) fun entry mem => ?_
    obtain ⟨command, isPending, rfl⟩ := mem_map.mp mem
    exact TreeMap.mem_toList_iff_getElem?_eq_some.mpr (held command isPending).target
  have few := among.countP_le fun entry => entry.2 == cellId
  rw [countP_map] at few
  rw [count, countP_map]
  refine Nat.le_trans (countP_mono_left fun command _ counted => ?_) few
  exact beq_iff_eq.mpr (of_decide_eq_true (Bool.and_eq_true_iff.mp counted).1)

/-- A run that issues a command for a cell stays within the cell's capacity, with
every pending handover counted; a run that issues none adds nothing. -/
theorem Tracks.neverOverbooks {history : List PastRun} (tracks : Tracks (history.foldl PastRun.pending []) statics)
    (capacity : strategy.policy.capacity = getCellCap settings) :
    NeverOverbooks history settings strategy call statics := by
  intro cellId limited
  have booked := getHandoverCommands_booked settings strategy call statics
  have pending : pendingFor history settings call cellId ≤ _ := tracks.pendingFor_le cellId
  by_cases mem : cellId ∈
      (getHandoverCommands settings strategy call statics).commands.map Issued.targetCellId
  · have within := booked.le_capacity (by simpa [capacity] using limited) mem
    rw [capacity] at within
    simp only [issuedFor]
    omega
  · simp only [issuedFor, count_eq_zero_of_not_mem mem]
    omega

/-- A target that is chosen is not the serving cell. -/
def Elsewhere (strategy : Strategy D) : Prop :=
  ∀ call seen effectiveLoad cellId,
    strategy.choose call seen effectiveLoad = .target cellId -> cellId ≠ seen.servingCellId

/-- During a run the pending commands are kept track of, and one whose attempt is over
targets another cell than the one its UE is measured in. -/
structure Keeps (settings : Settings D) (strategy : Strategy D) (call : Call D) (pending : List Issued)
    (statics : Statics) : Prop extends Tracks pending statics where
  elsewhere : ∀ command ∈ pending, command.underway settings.hoAttemptTimeout call.now = true ∨
    command.targetCellId ≠ (strategy.observe (getNrUeRsrpRsrq call.data command.ue)).servingCellId

section

variable (keeps : Keeps settings strategy call pending statics)
include keeps

theorem Keeps.quiet {after : Statics}
    (targets : after.pendingHoTarget = statics.pendingHoTarget)
    (times : after.lastHoCmdTime = statics.lastHoCmdTime) : Keeps settings strategy call pending after where
  distinct := keeps.distinct
  held command mem := ⟨targets ▸ (keeps.held command mem).target, times ▸ (keeps.held command mem).time⟩
  elsewhere := keeps.elsewhere

/-- A pending command whose attempt is not over closes the gates for its UE. -/
theorem Keeps.ended {command : Issued}
    (mem : command ∈ pending) (passed : (passGates settings call.now statics command.ue).2 = true) :
    command.targetCellId ≠ (strategy.observe (getNrUeRsrpRsrq call.data command.ue)).servingCellId := by
  refine (keeps.elsewhere command mem).resolve_left fun underway => ?_
  obtain ⟨target, time⟩ := keeps.held command mem
  have waits : recentlyCommanded settings call.now statics command.ue = true := by
    have pending : statics.pendingHoTarget.contains command.ue = true := by
      rw [TreeMap.contains_eq_isSome_getElem?, target]
      rfl
    simp only [recentlyCommanded, time, pending, Bool.true_and, Bool.or_eq_true]
    exact .inl underway
  simp only [passGates, waits] at passed
  split at passed
  · cases passed
  · split at passed <;> cases passed

theorem Keeps.clearReached {ue : UInt64}
    (ended : ∀ command ∈ pending, command.ue = ue -> command.targetCellId ≠
      (strategy.observe (getNrUeRsrpRsrq call.data ue)).servingCellId) :
    Keeps settings strategy call pending
      (clearReached statics ue (strategy.observe (getNrUeRsrpRsrq call.data ue)).servingCellId) := by
  unfold Handover.clearReached
  split
  · next reached =>
    refine ⟨⟨keeps.distinct, fun command mem => ?_⟩, keeps.elsewhere⟩
    obtain ⟨target, time⟩ := keeps.held command mem
    refine ⟨?_, time⟩
    have other : command.ue ≠ ue := by
      intro same
      rw [← same, target] at reached
      exact ended command mem same (by simpa [same] using reached)
    simpa [TreeMap.getElem?_erase, other.symm] using target
  · exact keeps

end

theorem Keeps.issue {progress : Progress} {command : Issued}
    (keeps : Keeps settings strategy call pending progress.statics)
    (elsewhere : command.targetCellId ≠
      (strategy.observe (getNrUeRsrpRsrq call.data command.ue)).servingCellId) :
    Keeps settings strategy call (supersede pending command) (issue strategy progress command).statics := by
  have others {other : Issued} (mem : other ∈ pending.filter (fun other => other.ue ≠ command.ue)) :
      other ∈ pending ∧ command.ue ≠ other.ue := by
    simpa [ne_comm] using mem
  refine ⟨⟨?_, fun other mem => ?_⟩, fun other mem => ?_⟩
  · rw [supersede, map_append, map_singleton]
    refine nodup_append.mpr ⟨keeps.distinct.sublist (filter_sublist.map _), nodup_singleton _, ?_⟩
    rintro _ isOther _ isNew rfl
    obtain ⟨other, mem, same⟩ := mem_map.mp isOther
    exact (others mem).2 (same.trans (mem_singleton.mp isNew)).symm
  · rcases mem_append.mp mem with before | isLast
    · obtain ⟨mem, ne⟩ := others before
      obtain ⟨target, time⟩ := keeps.held other mem
      exact ⟨by simpa [Handover.issue, TreeMap.getElem?_insert, ne] using target,
        by simpa [Handover.issue, TreeMap.getElem?_insert, ne] using time⟩
    · obtain rfl := mem_singleton.mp isLast
      exact ⟨TreeMap.getElem?_insert_self, TreeMap.getElem?_insert_self⟩
  · rcases mem_append.mp mem with before | isLast
    · exact keeps.elsewhere other (others before).1
    · obtain rfl := mem_singleton.mp isLast
      exact .inr elsewhere

/-- The turn of a UE keeps track of the commands it issues. -/
theorem Keeps.considerUe {progress : Progress} {start : List Issued} (elsewhere : Elsewhere strategy)
    (keeps : Keeps settings strategy call (progress.commands.foldl supersede start) progress.statics)
    (ueInfo : UeInfo) :
    Keeps settings strategy call
      ((considerUe settings strategy call progress ueInfo).commands.foldl supersede start)
      (considerUe settings strategy call progress ueInfo).statics := by
  have gates : (passGates settings call.now progress.statics ueInfo.nodeId).1.pendingHoTarget =
        progress.statics.pendingHoTarget ∧
      (passGates settings call.now progress.statics ueInfo.nodeId).1.lastHoCmdTime =
        progress.statics.lastHoCmdTime := by
    unfold passGates
    split
    · exact ⟨rfl, rfl⟩
    · split <;> exact ⟨rfl, rfl⟩
  have past := keeps.quiet gates.1 gates.2
  unfold Handover.considerUe
  dsimp only
  split
  · next passed =>
    split
    · have cleared : Keeps settings strategy call _ (Handover.clearReached _ ueInfo.nodeId _) :=
        past.clearReached fun command mem same => by
          rw [← same] at passed ⊢
          exact keeps.ended mem passed
      unfold handOver
      dsimp only
      split
      · exact cleared
      · split
        · exact cleared.quiet rfl rfl
        · exact cleared.quiet rfl rfl
        · next chosen =>
          have waits : ∀ {statics : Statics} {cellId : UInt16},
              (passTtt settings call.now statics ueInfo.nodeId cellId).1.pendingHoTarget = statics.pendingHoTarget ∧
                (passTtt settings call.now statics ueInfo.nodeId cellId).1.lastHoCmdTime = statics.lastHoCmdTime := by
            intro statics cellId
            unfold passTtt
            split
            · split <;> exact ⟨rfl, rfl⟩
            · exact ⟨rfl, rfl⟩
          split
          · rw [Handover.issue, foldl_append]
            exact (cleared.quiet waits.1 waits.2).issue (elsewhere _ _ _ _ chosen)
          · exact cleared.quiet waits.1 waits.2
    · exact past
  · exact past

theorem Keeps.turns {progress : Progress} {start : List Issued} (elsewhere : Elsewhere strategy)
    (ueInfos : List UeInfo)
    (keeps : Keeps settings strategy call (progress.commands.foldl supersede start) progress.statics) :
    Keeps settings strategy call
      ((ueInfos.foldl (Handover.considerUe settings strategy call) progress).commands.foldl supersede start)
      (ueInfos.foldl (Handover.considerUe settings strategy call) progress).statics := by
  induction ueInfos generalizing progress with
  | nil => exact keeps
  | cons ueInfo rest ih => exact ih (keeps.considerUe elsewhere ueInfo)

/-- A run of a module, as it is remembered. -/
def pastRun {Config : Type} (settings : Config -> Settings D) (strategy : Config -> Strategy D)
    (entry : Session × (Config × Call D)) : PastRun where
  now := entry.2.2.now
  hoAttemptTimeout := (settings entry.2.1).hoAttemptTimeout
  commands := (getHandoverCommands (settings entry.2.1) (strategy entry.2.1) entry.2.2 entry.1.statics).commands

/-- After any runs the static maps hold the pending commands. -/
theorem runs_tracks {Config : Type} {settings : Config -> Settings D} {strategy : Config -> Strategy D}
    (elsewhere : ∀ config, Elsewhere (strategy config)) {trace : List (Session × (Config × Call D))}
    {session : Session} (run : (runs settings strategy).Run trace session) :
    Tracks ((trace.map (pastRun settings strategy)).foldl PastRun.pending []) session.statics := by
  induction run with
  | initial valid => exact ⟨nodup_nil, fun command mem => by cases mem⟩
  | @step trace session action next prior moves ih =>
    cases moves
    rw [map_append, map_singleton, foldl_append]
    have pruned : Tracks _ (prunePending (settings action.1) action.2.now _) := ih.prune
    have start : Keeps (settings action.1) (strategy action.1) action.2 _ _ :=
      ⟨pruned, fun command mem => .inl (mem_filter.mp mem).2⟩
    exact (Keeps.turns (elsewhere action.1) action.2.ueInfos start).toTracks

theorem CellLoad.elsewhere [Decibel D] (settings : Settings D) : Elsewhere (CellLoad.strategy settings) := by
  intro call seen effectiveLoad cellId chosen
  replace chosen : CellLoad.pickTarget settings seen effectiveLoad (CellLoad.candidates call seen) = .target cellId :=
    chosen
  generalize CellLoad.candidates call seen = cands at chosen
  induction cands with
  | nil => cases chosen
  | cons cand rest ih =>
    simp only [CellLoad.pickTarget] at chosen
    split at chosen
    · exact ih chosen
    · next other =>
      split at chosen
      · exact ih chosen
      · split at chosen
        · cases chosen
        · split at chosen
          · split at chosen
            · exact ih chosen
            · cases chosen
          · exact Choice.target.inj chosen ▸ other

theorem TnNtn.elsewhere [Decibel D] (settings : TnNtnSettings D) : Elsewhere (TnNtn.strategy settings) := by
  intro call seen effectiveLoad cellId chosen
  replace chosen : TnNtn.pickTarget settings seen effectiveLoad (TnNtn.candidates call seen) = .target cellId := chosen
  simp only [TnNtn.pickTarget] at chosen
  split at chosen
  · cases chosen
  · next found =>
    split at chosen
    · cases chosen
    · obtain rfl := Choice.target.inj chosen
      rcases Option.or_eq_some_iff.mp found with preferred | ⟨-, fallback⟩
      · have eligible := (TnNtn.selectCandidate_mem preferred).2.1
        simp only [Bool.not_or, Bool.and_eq_true, Bool.not_eq_true', decide_eq_false_iff_not] at eligible
        exact eligible.1
      · have eligible := (TnNtn.selectCandidate_mem fallback).2.1
        simp only [Bool.not_or, Bool.and_eq_true, Bool.not_eq_true', decide_eq_false_iff_not] at eligible
        exact eligible.1

variable (D : Type) [Decibel D]

/-- `OranLmNr2NrRsrpHandoverWithCellLoad`, run again and again. -/
def withCellLoad : System Session (Settings D × Call D) :=
  runs id CellLoad.strategy

/-- `OranLmNr2NrRsrpHandoverWithTnNtn`, run again and again. -/
def withTnNtn : System Session (TnNtnSettings D × Call D) :=
  runs TnNtnSettings.toSettings TnNtn.strategy

/-- After any runs, the next run of either module keeps every cell with a
capacity within it, unless the UEs in the cell and those still to arrive exceed it
already, and the module for non-terrestrial cells never targets a blocked one. -/
theorem load_aware_never_overbooks :
    (∀ trace session, (withCellLoad D).Run trace session -> ∀ (settings : Settings D) (call : Call D),
      NeverOverbooks (trace.map (pastRun id CellLoad.strategy)) settings (CellLoad.strategy settings) call
        session.statics) ∧
    (∀ trace session, (withTnNtn D).Run trace session -> ∀ (settings : TnNtnSettings D) (call : Call D),
      NeverOverbooks (trace.map (pastRun TnNtnSettings.toSettings TnNtn.strategy)) settings.toSettings
        (TnNtn.strategy settings) call session.statics ∧
      ∀ cellId, settings.cellCapacityMap[cellId]? = some 0 ->
        issuedFor settings.toSettings (TnNtn.strategy settings) call session.statics cellId = 0) := by
  refine ⟨?_, ?_⟩
  · intro trace session run settings call
    exact (runs_tracks CellLoad.elsewhere run).neverOverbooks rfl
  · intro trace session run settings call
    refine ⟨(runs_tracks TnNtn.elsewhere run).neverOverbooks rfl, ?_⟩
    intro cellId blocked
    exact count_eq_zero_of_not_mem (TnNtn.blocked_never_target blocked call session.statics)

/-- Signal levels in whole decibels. -/
instance : Decibel Int where
  lt first second := first < second
  le first second := first ≤ second
  add := (· + ·)
  lowest := -1000000
  isfinite _ := true
  minus500 := -500

/-- At most one UE for each cell, and no delays. -/
def oneUePerCell : Settings Int where
  rsrpThreshold := 2
  warmup := 0
  minHoInterval := 2
  hoAttemptTimeout := 2
  timeToTrigger := 0
  lowRsrpRecheck := 2
  maxUesPerCell := 1
  tryNextBest := true
  minAcceptableRsrpDbm := -120
  cellCapacityMap := ∅

/-- Two UEs of cell 1 that both hear the empty cell 2 better. -/
def bothLeave : Call Int where
  now := 5
  data :=
    { (opened : Repository Int) with
      noderegistration := [⟨1, true, 0⟩, ⟨2, true, 0⟩]
      uersrprsrq := fun _ =>
        [⟨1, 4, 1, 1, -90, -12, true, 0⟩, ⟨1, 4, 1, 2, -80, -10, false, 0⟩,
          ⟨2, 4, 2, 1, -90, -12, true, 0⟩, ⟨2, 4, 2, 2, -80, -10, false, 0⟩] }
  ueInfos := [⟨1, 1, 1⟩, ⟨2, 1, 2⟩]
  gnbInfos := [⟨10, 1⟩, ⟨20, 2⟩]
  stdSort := .insertion

/-- What a first run makes of them. -/
def oneLeaves : Progress :=
  getHandoverCommands oneUePerCell (CellLoad.strategy oneUePerCell) bothLeave ⟨∅, ∅, ∅, ∅⟩

/-- The same measurements a second later. -/
def oneWaits : Call Int :=
  { bothLeave with now := 6 }

/-- The first run sends one of them to cell 2. In the second its command is pending, and the
other is not sent after it. -/
theorem bothLeave_not_overbooked :
    pendingFor [⟨5, 2, oneLeaves.commands⟩] oneUePerCell oneWaits 2 = 1 ∧
      issuedFor oneUePerCell (CellLoad.strategy oneUePerCell) oneWaits oneLeaves.statics 2 = 0 ∧
      NeverOverbooks [⟨5, 2, oneLeaves.commands⟩] oneUePerCell (CellLoad.strategy oneUePerCell) oneWaits
        oneLeaves.statics :=
  have run : (withCellLoad Int).Run [(⟨⟨∅, ∅, ∅, ∅⟩, []⟩, oneUePerCell, bothLeave)]
      ⟨oneLeaves.statics, oneLeaves.commands⟩ :=
    .step (.initial rfl) rfl
  ⟨by decide, by decide +kernel, (load_aware_never_overbooks Int).1 _ _ run oneUePerCell oneWaits⟩

end Ns3.Oran.Handover
