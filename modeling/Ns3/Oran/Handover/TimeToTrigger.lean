import Ns3.Oran.Handover.Overbooking
import Ns3.Semantics.Stopwatch

/-!
# Time to trigger

The table `tttState` keeps one stopwatch for each UE. A run that does not choose a cell for a UE
leaves its stopwatch running, and the table does not know the serving cell, so a command may rest on
runs with gaps. `lookOf` reads a run as one look at the UE; the rest follows from the laws of
stopwatches.
-/

namespace Ns3.Oran.Handover

open Ns3.Semantics Ns3.Semantics.Stopwatch Ns3.Oran.DataRepository List
open TnNtn (TnNtnSettings)
open Std (TreeMap)

variable {D : Type}

/-- What a module collects from the measurements of a UE in a run. -/
def observation (strategy : Strategy D) (call : Call D) (ue : UInt64) : Observation D :=
  strategy.observe (getNrUeRsrpRsrq call.data ue)

variable (settings : Settings D)

/-- How far the turn of a UE gets, and the choice made if it gets that far. -/
def choiceFor (strategy : Strategy D) (call : Call D)
    (progress : Progress) (ue : UInt64) : Option Choice :=
  if (passGates settings call.now progress.statics ue).2 && strategy.usable (observation strategy call ue) &&
      getServingGnbNodeId call.gnbInfos (observation strategy call ue).servingCellId ≠ 0 then
    some (strategy.choose call (observation strategy call ue) progress.effectiveLoad)
  else
    none

/-- The turn of a UE as a look at it, in the context of its serving cell. -/
def sightingOf (strategy : Strategy D) (call : Call D)
    (progress : Progress) (ue : UInt64) : Sighting UInt16 UInt16 :=
  match choiceFor settings strategy call progress ue with
  | some (.target cellId) => .chosen cellId (observation strategy call ue).servingCellId
  | some _ => .nothing
  | none => .missed

/-- What the rest of the turns of a run shows of a UE. -/
def sightingIn (settings : Settings D) (strategy : Strategy D) (call : Call D) (ue : UInt64) :
    Progress -> List UeInfo -> Sighting UInt16 UInt16
  | _, [] => .missed
  | progress, ueInfo :: rest =>
    if ueInfo.nodeId = ue then
      sightingOf settings strategy call progress ue
    else
      sightingIn settings strategy call ue (considerUe settings strategy call progress ueInfo) rest

/-- A sighting of a run as a look of the stopwatch. -/
def lookAt (call : Call D) (sighting : Sighting UInt16 UInt16) : Look UInt16 UInt16 Int :=
  ⟨call.now, settings.timeToTrigger, sighting⟩

theorem passTtt_spec (now : Int) (statics : Statics) (ue : UInt64) (cellId : UInt16) :
    (passTtt settings now statics ue cellId).2 =
        decide (settings.timeToTrigger ≤ now - since statics.tttState[ue]? cellId now) ∧
      (passTtt settings now statics ue cellId).1.tttState[ue]? =
        some (cellId, since statics.tttState[ue]? cellId now) ∧
      ∀ other, other ≠ ue ->
        (passTtt settings now statics ue cellId).1.tttState[other]? = statics.tttState[other]? := by
  unfold passTtt
  cases running : statics.tttState[ue]? with
  | none =>
    refine ⟨by simp [since], by simp [since], fun other ne => ?_⟩
    simp [TreeMap.getElem?_insert, Ne.symm ne]
  | some stopwatch =>
    obtain ⟨candidate, start⟩ := stopwatch
    by_cases same : candidate = cellId
    · subst same
      simp [since, running]
    · refine ⟨by simp [since, same], by simp [since, same], fun other ne => ?_⟩
      simp [same, TreeMap.getElem?_insert, Ne.symm ne]

/-- What the turn of a UE does to the stopwatches and the commands: it clicks the
stopwatch of the UE, and issues a command when the stopwatch fires. -/
structure Clicked (ue : UInt64) (look : Look UInt16 UInt16 Int) (before after : Progress) :
    Prop where
  own : after.statics.tttState[ue]? = (click before.statics.tttState[ue]? look).1
  others : ∀ other, other ≠ ue -> after.statics.tttState[other]? = before.statics.tttState[other]?
  quiet : (click before.statics.tttState[ue]? look).2 = false -> after.commands = before.commands
  fires : (click before.statics.tttState[ue]? look).2 = true -> ∃ command serving,
    after.commands = before.commands ++ [command] ∧ command.ue = ue ∧ command.time = look.now ∧
      look.sighting = .chosen command.targetCellId serving

variable {ue : UInt64} {look : Look UInt16 UInt16 Int}

theorem Clicked.of_missed {before after : Progress} (sighting : look.sighting = .missed)
    (unchanged : after.statics.tttState = before.statics.tttState)
    (commands : after.commands = before.commands) : Clicked ue look before after := by
  refine ⟨?_, fun _ _ => by rw [unchanged], fun _ => commands, fun fires => ?_⟩
  · rw [click_missed _ sighting, unchanged]
  · rw [click_missed _ sighting] at fires
    cases fires

theorem Clicked.of_cleared {before after : Progress} (sighting : look.sighting = .nothing)
    (cleared : after.statics.tttState = before.statics.tttState.erase ue)
    (commands : after.commands = before.commands) : Clicked ue look before after := by
  refine ⟨?_, fun other ne => ?_, fun _ => commands, fun fires => ?_⟩
  · rw [click_nothing _ sighting, cleared, TreeMap.getElem?_erase_self]
  · simp [cleared, TreeMap.getElem?_erase, Ne.symm ne]
  · rw [click_nothing _ sighting] at fires
    cases fires

theorem passGates_tttState (now : Int) (statics : Statics) (ue : UInt64) :
    (passGates settings now statics ue).1.tttState = statics.tttState := by
  unfold passGates
  split
  · rfl
  · split <;> rfl

theorem clearReached_tttState (statics : Statics) (ue : UInt64) (servingCellId : UInt16) :
    (clearReached statics ue servingCellId).tttState = statics.tttState := by
  unfold clearReached
  split <;> rfl

theorem handOver_clicked (strategy : Strategy D) (call : Call D)
    (progress : Progress) (ue : UInt64)
    (known : getServingGnbNodeId call.gnbInfos (observation strategy call ue).servingCellId ≠ 0)
    {sighting : Sighting UInt16 UInt16}
    (seen : sighting = match strategy.choose call (observation strategy call ue) progress.effectiveLoad with
      | .target cellId => .chosen cellId (observation strategy call ue).servingCellId | _ => .nothing) :
    Clicked ue (lookAt settings call sighting) progress
      (handOver settings strategy call progress ue (observation strategy call ue)) := by
  subst seen
  unfold handOver
  simp only [if_neg known]
  cases chosen : strategy.choose call (observation strategy call ue) progress.effectiveLoad with
  | keep => exact .of_cleared rfl rfl rfl
  | lowRsrp => exact .of_cleared rfl rfl rfl
  | target cellId =>
    obtain ⟨passes, own, others⟩ :=
      passTtt_spec settings call.now progress.statics ue cellId
    dsimp only
    rw [passes]
    have shown : (lookAt settings call
        (.chosen cellId (observation strategy call ue).servingCellId)).sighting =
          .chosen cellId (observation strategy call ue).servingCellId := rfl
    by_cases long : settings.timeToTrigger ≤
        call.now - since progress.statics.tttState[ue]? cellId call.now
    · rw [decide_eq_true long, if_pos rfl]
      constructor
      · rw [click_fires _ shown long]
        simp [issue]
      · intro other ne
        simpa [issue, TreeMap.getElem?_erase, Ne.symm ne] using others other ne
      · rw [click_fires _ shown long]
        intro quiet
        cases quiet
      · exact fun _ => ⟨_, _, rfl, rfl, rfl, rfl⟩
    · rw [decide_eq_false long, if_neg Bool.false_ne_true]
      constructor
      · rw [click_waits _ shown long]
        exact own
      · exact others
      · exact fun _ => rfl
      · rw [click_waits _ shown long]
        intro fires
        cases fires

theorem Clicked.after {before after : Progress}
    {statics : Statics} (unchanged : statics.tttState = before.statics.tttState)
    (clicked : Clicked ue look { before with statics := statics } after) : Clicked ue look before after := by
  obtain ⟨own, others, quiet, fires⟩ := clicked
  simp only [unchanged] at own others quiet fires
  exact ⟨own, others, quiet, fires⟩

theorem considerUe_eq (strategy : Strategy D) (call : Call D)
    (progress : Progress) (ueInfo : UeInfo) :
    considerUe settings strategy call progress ueInfo =
      let gates := passGates settings call.now progress.statics ueInfo.nodeId
      let seen := observation strategy call ueInfo.nodeId
      if gates.2 then
        if strategy.usable seen then
          handOver settings strategy call
            { progress with statics := clearReached gates.1 ueInfo.nodeId seen.servingCellId }
            ueInfo.nodeId seen
        else
          { progress with statics := gates.1 }
      else
        { progress with statics := gates.1 } :=
  rfl

theorem considerUe_clicked (strategy : Strategy D) (call : Call D)
    (progress : Progress) (ueInfo : UeInfo) :
    Clicked ueInfo.nodeId
      (lookAt settings call (sightingOf settings strategy call progress ueInfo.nodeId)) progress
      (considerUe settings strategy call progress ueInfo) := by
  have gates := passGates_tttState settings call.now progress.statics ueInfo.nodeId
  have reached := (clearReached_tttState
    (passGates settings call.now progress.statics ueInfo.nodeId).1 ueInfo.nodeId
    (observation strategy call ueInfo.nodeId).servingCellId).trans gates
  rw [considerUe_eq]
  by_cases passed : (passGates settings call.now progress.statics ueInfo.nodeId).2 = true
  · by_cases usable : strategy.usable (observation strategy call ueInfo.nodeId) = true
    · rw [if_pos passed, if_pos usable]
      by_cases known : getServingGnbNodeId call.gnbInfos
          (observation strategy call ueInfo.nodeId).servingCellId = 0
      · have missed : sightingOf settings strategy call progress ueInfo.nodeId = .missed := by
          simp [sightingOf, choiceFor, known]
        rw [missed]
        unfold handOver
        rw [if_pos known]
        exact .of_missed rfl reached rfl
      · refine .after reached (handOver_clicked settings strategy call _ _ known ?_)
        simp only [sightingOf, choiceFor, passed, usable, decide_eq_true known]
        cases strategy.choose call (observation strategy call ueInfo.nodeId)
          progress.effectiveLoad <;> rfl
    · have missed : sightingOf settings strategy call progress ueInfo.nodeId = .missed := by
        simp [sightingOf, choiceFor, usable]
      rw [if_pos passed, if_neg usable, missed]
      exact .of_missed rfl gates rfl
  · have missed : sightingOf settings strategy call progress ueInfo.nodeId = .missed := by
      simp [sightingOf, choiceFor, passed]
    rw [if_neg passed, missed]
    exact .of_missed rfl gates rfl

/-- What a run of a module over some UEs, each listed once, does: it clicks every
stopwatch once, and its commands are those of the stopwatches that fire. -/
structure Ran (look : UInt64 -> Look UInt16 UInt16 Int) (before after : Progress) : Prop where
  stopwatches : ∀ ue, after.statics.tttState[ue]? = (click before.statics.tttState[ue]? (look ue)).1
  commands : ∃ issued, after.commands = before.commands ++ issued ∧
    (∀ command ∈ issued, command.time = (look command.ue).now ∧
      (click before.statics.tttState[command.ue]? (look command.ue)).2 = true ∧
        ∃ serving, (look command.ue).sighting = .chosen command.targetCellId serving) ∧
    ∀ ue, (click before.statics.tttState[ue]? (look ue)).2 = true -> ∃ command ∈ issued, command.ue = ue

theorem sightingIn_of_not_mem {settings : Settings D} {strategy : Strategy D} {call : Call D}
    {ueInfos : List UeInfo} (absent : ue ∉ ueInfos.map UeInfo.nodeId)
    (progress : Progress) : sightingIn settings strategy call ue progress ueInfos = .missed := by
  induction ueInfos generalizing progress with
  | nil => rfl
  | cons ueInfo rest ih =>
    simp only [map_cons, mem_cons, not_or] at absent
    rw [sightingIn, if_neg (Ne.symm absent.1), ih absent.2]

theorem foldl_considerUe_ran (strategy : Strategy D) (call : Call D)
    {ueInfos : List UeInfo} (distinct : (ueInfos.map UeInfo.nodeId).Nodup) (progress : Progress) :
    Ran (fun ue => lookAt settings call (sightingIn settings strategy call ue progress ueInfos))
      progress (ueInfos.foldl (considerUe settings strategy call) progress) := by
  induction ueInfos generalizing progress with
  | nil =>
    have missed : ∀ ue, click progress.statics.tttState[ue]? (lookAt settings call
        (sightingIn settings strategy call ue progress [])) =
          (progress.statics.tttState[ue]?, false) := fun ue => click_missed _ rfl
    exact ⟨fun ue => by rw [missed]; rfl, [], by simp, by simp, fun ue fires => by
      rw [missed] at fires; cases fires⟩
  | cons ueInfo rest ih =>
    obtain ⟨absent, distinct⟩ := nodup_cons.mp distinct
    have turn := considerUe_clicked settings strategy call progress ueInfo
    obtain ⟨stopwatches, issued, appended, sound, complete⟩ :=
      ih distinct (considerUe settings strategy call progress ueInfo)
    have head : ∀ ue, ueInfo.nodeId = ue -> sightingIn settings strategy call ue progress
        (ueInfo :: rest) = sightingOf settings strategy call progress ue := by
      intro ue same
      rw [sightingIn, if_pos same]
    have tail : ∀ ue, ueInfo.nodeId ≠ ue -> sightingIn settings strategy call ue progress
        (ueInfo :: rest) = sightingIn settings strategy call ue
          (considerUe settings strategy call progress ueInfo) rest := by
      intro ue ne
      rw [sightingIn, if_neg ne]
    -- Later turns are of other UEs and leave this one's stopwatch.
    have later : ∀ reading, click reading (lookAt settings call (sightingIn settings strategy call
        ueInfo.nodeId (considerUe settings strategy call progress ueInfo) rest)) =
          (reading, false) :=
      fun reading => click_missed _ (sightingIn_of_not_mem absent _)
    have ofRest : ∀ command ∈ issued, command.time = call.now ∧
        (click progress.statics.tttState[command.ue]? (lookAt settings call (sightingIn settings
          strategy call command.ue progress (ueInfo :: rest)))).2 = true ∧
        ∃ serving, sightingIn settings strategy call command.ue progress (ueInfo :: rest) =
          .chosen command.targetCellId serving := by
      intro command mem
      obtain ⟨time, fires, shown⟩ := sound command mem
      have ne : ueInfo.nodeId ≠ command.ue := by
        rintro same
        rw [← same, later] at fires
        cases fires
      rw [tail _ ne, ← turn.others _ (Ne.symm ne)]
      exact ⟨time, fires, shown⟩
    have toRest : ∀ ue, ueInfo.nodeId ≠ ue -> (click progress.statics.tttState[ue]? (lookAt settings
        call (sightingIn settings strategy call ue progress (ueInfo :: rest)))).2 = true ->
          ∃ command ∈ issued, command.ue = ue := by
      intro ue ne fires
      rw [tail _ ne, ← turn.others _ (Ne.symm ne)] at fires
      exact complete ue fires
    rw [foldl_cons]
    constructor
    · intro ue
      rw [stopwatches ue]
      by_cases same : ueInfo.nodeId = ue
      · subst same
        rw [later, turn.own, head _ rfl]
      · rw [turn.others ue (Ne.symm same), tail ue same]
    · cases fires : (click progress.statics.tttState[ueInfo.nodeId]? (lookAt settings call
        (sightingOf settings strategy call progress ueInfo.nodeId))).2 with
      | false =>
        refine ⟨issued, by rw [appended, turn.quiet fires], ofRest, fun ue firesAll => ?_⟩
        by_cases same : ueInfo.nodeId = ue
        · subst same
          rw [head _ rfl, fires] at firesAll
          cases firesAll
        · exact toRest ue same firesAll
      | true =>
        obtain ⟨command, serving, added, ofUe, time, shown⟩ := turn.fires fires
        refine ⟨command :: issued, by rw [appended, added]; simp, ?_, fun ue firesAll => ?_⟩
        · intro other mem
          rcases mem_cons.mp mem with rfl | inRest
          · rw [ofUe, head _ rfl]
            exact ⟨time, fires, serving, shown⟩
          · exact ofRest other inRest
        · by_cases same : ueInfo.nodeId = ue
          · exact ⟨command, mem_cons_self, ofUe.trans same⟩
          · obtain ⟨other, mem, its⟩ := toRest ue same firesAll
            exact ⟨other, mem_cons_of_mem _ mem, its⟩

/-- `GetUeInfos` lists the UEs of `GetNrUeE2NodeIds`, and so each UE once. -/
def EachUeOnce (call : Call D) : Prop :=
  (call.ueInfos.map UeInfo.nodeId).Nodup

section Sessions

variable {Config : Type} (settings : Config -> Settings D) (strategy : Config -> Strategy D)

/-- A run of a module, with what came before it. -/
abbrev Entry (D Config : Type) := Session × (Config × Call D)

/-- The result of a run of a module. -/
def resultOf (entry : Entry D Config) : Progress :=
  getHandoverCommands (settings entry.2.1) (strategy entry.2.1) entry.2.2 entry.1.statics

/-- A run of a module as a look at a UE. -/
def lookOf (ue : UInt64) (entry : Entry D Config) : Look UInt16 UInt16 Int :=
  lookAt (settings entry.2.1) entry.2.2 (sightingIn (settings entry.2.1) (strategy entry.2.1)
    entry.2.2 ue ⟨prunePending (settings entry.2.1) entry.2.2.now entry.1.statics,
      reservedLoad (settings entry.2.1) (strategy entry.2.1) entry.2.2 entry.1.statics, []⟩
    entry.2.2.ueInfos)

/-- After a run, the time to trigger is continuous: every command rests on an
uninterrupted stretch of runs that chose its target for its UE under one serving
cell and that began early enough, and so does every stopwatch that runs. -/
structure ContinuousTtt (earlier : List (Entry D Config)) (entry : Entry D Config) : Prop where
  commands : ∀ command ∈ (resultOf settings strategy entry).commands, ∃ serving start,
    (settings entry.2.1).timeToTrigger ≤ command.time - start ∧ Held command.targetCellId serving start
        ((earlier ++ [entry]).map (lookOf settings strategy command.ue))
  stopwatches : ∀ (ue : UInt64) (cellId : UInt16) (start : Int),
    (resultOf settings strategy entry).statics.tttState[ue]? = some (cellId, start) ->
      ∃ serving, Held cellId serving start ((earlier ++ [entry]).map (lookOf settings strategy ue))

/-- In a run, a UE that is not looked at, or is looked at under another serving
cell than in the run before, has no stopwatch that goes on: the run does to it
what it does to a stopwatch that does not run. -/
def Undisturbed (earlier : List (Entry D Config)) (entry : Entry D Config) : Prop :=
  ∀ ue : UInt64, (lookOf settings strategy ue entry).sighting.context? =
        earlier.getLast?.bind (fun last => (lookOf settings strategy ue last).sighting.context?) ∨
      click entry.1.statics.tttState[ue]? (lookOf settings strategy ue entry) =
        click none (lookOf settings strategy ue entry)

variable {entry : Entry D Config}

theorem resultOf_ran (distinct : EachUeOnce entry.2.2) :
    (∀ ue, (resultOf settings strategy entry).statics.tttState[ue]? =
      (click entry.1.statics.tttState[ue]? (lookOf settings strategy ue entry)).1) ∧
    (∀ command ∈ (resultOf settings strategy entry).commands, command.time = entry.2.2.now ∧
      (click entry.1.statics.tttState[command.ue]? (lookOf settings strategy command.ue entry)).2 = true ∧
      ∃ serving, (lookOf settings strategy command.ue entry).sighting = .chosen command.targetCellId serving) ∧
    ∀ ue, (click entry.1.statics.tttState[ue]? (lookOf settings strategy ue entry)).2 = true ->
      ∃ command ∈ (resultOf settings strategy entry).commands, command.ue = ue := by
  obtain ⟨stopwatches, issued, appended, sound, complete⟩ :=
    foldl_considerUe_ran (settings entry.2.1) (strategy entry.2.1) entry.2.2 distinct
      ⟨prunePending (settings entry.2.1) entry.2.2.now entry.1.statics,
        reservedLoad (settings entry.2.1) (strategy entry.2.1) entry.2.2 entry.1.statics, []⟩
  have commands : (resultOf settings strategy entry).commands = issued := appended
  rw [commands]
  exact ⟨stopwatches, sound, complete⟩

variable {settings strategy}

/-- The table holds, for every UE, the stopwatch kept over all runs so far. -/
theorem tttState_eq_watch {trace : List (Entry D Config)} {session : Session}
    (run : (runs settings strategy).Run trace session)
    (distinct : ∀ entry ∈ trace, EachUeOnce entry.2.2) (ue : UInt64) :
    session.statics.tttState[ue]? = watch (trace.map (lookOf settings strategy ue)) := by
  induction run with
  | initial valid =>
    subst valid
    simp
  | @step trace session action next prior moves ih =>
    cases moves
    have before := ih fun entry mem =>
      distinct entry (mem_append_left _ mem)
    have ran := (resultOf_ran settings strategy (distinct (session, action) (by simp))).1 ue
    rw [map_append, map_singleton, watch_append, ← before]
    exact ran

theorem continuousTtt_iff {earlier : List (Entry D Config)} (distinct : EachUeOnce entry.2.2)
    (kept : ∀ ue : UInt64, entry.1.statics.tttState[ue]? =
      watch (earlier.map (lookOf settings strategy ue))) :
    ContinuousTtt settings strategy earlier entry ↔ ∀ ue, Continuous
      (earlier.map (lookOf settings strategy ue)) (lookOf settings strategy ue entry) := by
  obtain ⟨stopwatches, sound, complete⟩ :=
    resultOf_ran settings strategy distinct
  constructor
  · rintro ⟨commands, running⟩ ue
    constructor
    · intro fires
      rw [← kept ue] at fires
      obtain ⟨command, mem, rfl⟩ := complete ue fires
      obtain ⟨serving, start, long, held⟩ := commands command mem
      rw [(sound command mem).1] at long
      exact ⟨_, serving, start, long, by simpa using held⟩
    · intro cellId start runs
      rw [← kept ue, ← stopwatches ue] at runs
      simpa using running ue cellId start runs
  · intro continuous
    constructor
    · intro command mem
      obtain ⟨time, fires, serving, shown⟩ := sound command mem
      rw [kept] at fires
      obtain ⟨cellId, under, start, long, held⟩ := (continuous command.ue).fired fires
      have same := held.of_append.1
      rw [shown] at same
      obtain ⟨rfl, rfl⟩ := Sighting.chosen.inj same
      rw [time]
      exact ⟨serving, start, long, by simpa using held⟩
    · intro ue cellId start runs
      rw [stopwatches, kept] at runs
      simpa using (continuous ue).running cellId start runs

theorem undisturbed_iff {earlier : List (Entry D Config)} (kept : ∀ ue : UInt64, entry.1.statics.tttState[ue]? =
      watch (earlier.map (lookOf settings strategy ue))) :
    Undisturbed settings strategy earlier entry ↔ ∀ ue, Stopwatch.Undisturbed
      (earlier.map (lookOf settings strategy ue)) (lookOf settings strategy ue entry) := by
  refine forall_congr' fun ue => ?_
  rw [Stopwatch.Undisturbed, kept ue]
  cases earlier using reverseRecOn <;> simp

/-- Over any sequence of runs, the time to trigger is continuous exactly when no
run disturbs a stopwatch. -/
theorem runs_continuousTtt_iff {trace : List (Entry D Config)} {session : Session}
    (run : (runs settings strategy).Run trace session) (distinct : ∀ entry ∈ trace, EachUeOnce entry.2.2) :
    Throughout (ContinuousTtt settings strategy) trace ↔ Throughout (Undisturbed settings strategy) trace := by
  have kept : ∀ earlier entry later, trace = earlier ++ entry :: later -> ∀ ue : UInt64,
      entry.1.statics.tttState[ue]? = watch (earlier.map (lookOf settings strategy ue)) := by
    rintro earlier entry later rfl ue
    exact tttState_eq_watch run.before.1 (fun other mem => distinct other (mem_append_left _ mem)) ue
  have perUe : (∀ ue, Throughout Continuous (trace.map (lookOf settings strategy ue))) ↔
      ∀ ue, Throughout Stopwatch.Undisturbed (trace.map (lookOf settings strategy ue)) :=
    forall_congr' fun ue => continuous_throughout_iff _
  simp only [throughout_map] at perUe
  constructor
  · intro continuous earlier entry later split
    rw [undisturbed_iff (kept earlier entry later split)]
    intro ue
    refine perUe.mp (fun other before last after splits => ?_) ue earlier entry later split
    exact (continuousTtt_iff (distinct last (by simp [splits]))
      (kept before last after splits)).mp (continuous before last after splits) other
  · intro undisturbed earlier entry later split
    rw [continuousTtt_iff (distinct entry (by simp [split])) (kept earlier entry later split)]
    intro ue
    refine perUe.mpr (fun other before last after splits => ?_) ue earlier entry later split
    exact (undisturbed_iff (kept before last after splits)).mp (undisturbed before last after splits) other

theorem choose_of_sightingIn {ueInfos : List UeInfo} {call : Call D} {own : Settings D}
    {deciding : Strategy D} {ue : UInt64} {progress : Progress} {cellId serving : UInt16}
    (shown : sightingIn own deciding call ue progress ueInfos = .chosen cellId serving) :
    serving = (observation deciding call ue).servingCellId ∧ ∃ effectiveLoad,
      deciding.choose call (observation deciding call ue) effectiveLoad = .target cellId := by
  induction ueInfos generalizing progress with
  | nil => cases shown
  | cons ueInfo rest ih =>
    rw [sightingIn] at shown
    split at shown
    · unfold sightingOf at shown
      split at shown
      · next chosen choice =>
          obtain ⟨rfl, rfl⟩ := Sighting.chosen.inj shown
          unfold choiceFor at choice
          split at choice
          · exact ⟨rfl, _, Option.some.inj choice⟩
          · cases choice
      · cases shown
      · cases shown
    · exact ih shown

/-- A UE for which a run chooses a cell is served by the cell of the look, and
the strategy chose the cell under some load. -/
theorem choose_of_lookOf {ue : UInt64} {cellId serving : UInt16}
    (shown : (lookOf settings strategy ue entry).sighting = .chosen cellId serving) :
    serving = (observation (strategy entry.2.1) entry.2.2 ue).servingCellId ∧ ∃ effectiveLoad,
      (strategy entry.2.1).choose entry.2.2 (observation (strategy entry.2.1) entry.2.2 ue)
        effectiveLoad = .target cellId :=
  choose_of_sightingIn shown

end Sessions

variable [Decibel D]

/-- Over any sequence of runs of either module, the time to trigger is continuous
exactly when no run disturbs a running stopwatch. A cell that a run chooses beats
the serving cell by the margin of the module. -/
theorem time_to_trigger_continuous_iff : (∀ {trace session}, (withCellLoad D).Run trace session ->
      (∀ entry ∈ trace, EachUeOnce entry.2.2) -> (Throughout (ContinuousTtt id CellLoad.strategy) trace ↔
          Throughout (Undisturbed id CellLoad.strategy) trace) ∧
        ∀ entry ∈ trace, ∀ ue cellId serving,
          (lookOf id CellLoad.strategy ue entry).sighting = .chosen cellId serving -> CellLoad.Beats entry.2.1
              (observation (CellLoad.strategy entry.2.1) entry.2.2 ue) cellId) ∧
    (∀ {trace session}, (withTnNtn D).Run trace session -> (∀ entry ∈ trace, EachUeOnce entry.2.2) ->
        (Throughout (ContinuousTtt TnNtnSettings.toSettings TnNtn.strategy) trace ↔
          Throughout (Undisturbed TnNtnSettings.toSettings TnNtn.strategy) trace) ∧
        ∀ entry ∈ trace, ∀ ue cellId serving, (lookOf TnNtnSettings.toSettings TnNtn.strategy ue entry).sighting =
              .chosen cellId serving ->
            TnNtn.Beats entry.2.1 (observation (TnNtn.strategy entry.2.1) entry.2.2 ue) cellId) := by
  refine ⟨fun run distinct => ⟨runs_continuousTtt_iff run distinct, ?_⟩,
    fun run distinct => ⟨runs_continuousTtt_iff run distinct, ?_⟩⟩
  · intro entry _ ue cellId serving shown
    obtain ⟨-, effectiveLoad, chosen⟩ := choose_of_lookOf shown
    exact CellLoad.chosen_beats chosen
  · intro entry _ ue cellId serving shown
    obtain ⟨-, effectiveLoad, chosen⟩ := choose_of_lookOf shown
    exact TnNtn.chosen_beats chosen

/-- The neighbour has to be better for two seconds. -/
def twoSecondsBetter : Settings Int :=
  { oneUePerCell with timeToTrigger := 2 }

/-- UE 1 of cell 1, which hears cell 2 better, at some instant. -/
def hearsBetter (now : Int) : Call Int :=
  { bothLeave with now := now, ueInfos := [⟨1, 1, 1⟩] }

/-- The same, without any measurement of the UE. -/
def hearsNothing (now : Int) : Call Int :=
  { hearsBetter now with
    data := { (opened : Repository Int) with noderegistration := [⟨1, true, 0⟩] } }

/-- Cell 2 is better at 5 and at 7, and nothing is known of the UE at 6. -/
def gap : List (Settings Int × Call Int) :=
  [(twoSecondsBetter, hearsBetter 5), (twoSecondsBetter, hearsNothing 6), (twoSecondsBetter, hearsBetter 7)]

/-- The runs of `gap`, each with what came before it. -/
def gapTrace : List (Entry Int (Settings Int)) :=
  (withCellLoad Int).steps ⟨⟨∅, ∅, ∅, ∅⟩, []⟩ gap

theorem gap_run : ∃ session, (withCellLoad Int).Run gapTrace session :=
  ⟨_, System.run_of_exec rfl rfl⟩

theorem gap_eachUeOnce : ∀ entry ∈ gapTrace, EachUeOnce entry.2.2 := by
  simp [gapTrace, gap, System.steps, withCellLoad, runs, EachUeOnce, hearsBetter, hearsNothing]

theorem gap_continuous_iff : Throughout (ContinuousTtt id CellLoad.strategy) gapTrace ↔
    Throughout (Undisturbed id CellLoad.strategy) gapTrace := by
  obtain ⟨session, run⟩ := gap_run
  exact ((time_to_trigger_continuous_iff (D := Int)).1 run gap_eachUeOnce).1

/-- The command at 7 counts from 5, over the run at 6 that did not see the UE. -/
theorem stopwatch_survives_gap : (∃ session, (withCellLoad Int).Run gapTrace session) ∧
    (∀ entry ∈ gapTrace, EachUeOnce entry.2.2) ∧ ¬Throughout (ContinuousTtt id CellLoad.strategy) gapTrace := by
  refine ⟨gap_run, gap_eachUeOnce, fun continuous => ?_⟩
  have split : gapTrace = [gapTrace[0], gapTrace[1]] ++ gapTrace[2] :: [] := rfl
  have issued : ⟨7, 1, 10, 1, 2⟩ ∈ (resultOf id CellLoad.strategy gapTrace[2]).commands := by
    decide
  obtain ⟨serving, start, long, held⟩ := (continuous _ _ _ split).commands _ issued
  rw [map_append] at held
  rcases held.of_append.2 with lasted | begun
  · rw [map_cons, map_cons, map_nil] at lasted
    have shown := (show Held _ _ _ ([_] ++ [_]) from lasted).of_append.1
    cases shown
  · subst begun
    exact absurd long (by decide)

end Ns3.Oran.Handover
