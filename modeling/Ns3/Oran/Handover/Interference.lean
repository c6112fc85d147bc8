import Ns3.Oran.Handover.TimeToTrigger
import Ns3.Semantics.Sharing

/-!
# Instances share the static tables

The tables of `GetHandoverCommands` are static, so all instances of a module run
on the same ones. A run of an instance reads of them the entries of the UEs it
considers, and the pending handovers of all UEs. Runs of others that leave these
alone cannot be told from no runs at all.
-/

namespace Ns3.Oran.Handover

open Ns3.Semantics Ns3.Semantics.Sharing Ns3.Oran.DataRepository List Handover
open Ns3.Semantics.Stopwatch (since)
open Std (TreeMap)

variable {D : Type}

/-- The tables have the same entries for a UE. -/
structure AgreeAt (ue : UInt64) (left right : Statics) : Prop where
  times : left.lastHoCmdTime[ue]? = right.lastHoCmdTime[ue]?
  pending : left.pendingHoTarget[ue]? = right.pendingHoTarget[ue]?
  blocks : left.lowRsrpBlockUntil[ue]? = right.lowRsrpBlockUntil[ue]?
  stopwatches : left.tttState[ue]? = right.tttState[ue]?

theorem AgreeAt.refl (ue : UInt64) (statics : Statics) : AgreeAt ue statics statics :=
  ⟨rfl, rfl, rfl, rfl⟩

theorem AgreeAt.symm {ue : UInt64} {left right : Statics} (agree : AgreeAt ue left right) : AgreeAt ue right left :=
  ⟨agree.times.symm, agree.pending.symm, agree.blocks.symm, agree.stopwatches.symm⟩

theorem AgreeAt.trans {ue : UInt64} {first second third : Statics} (one : AgreeAt ue first second)
    (two : AgreeAt ue second third) : AgreeAt ue first third :=
  ⟨one.times.trans two.times, one.pending.trans two.pending, one.blocks.trans two.blocks,
    one.stopwatches.trans two.stopwatches⟩

section Reads

variable {ue : UInt64} {left right : Statics} (agree : AgreeAt ue left right)

include agree

theorem AgreeAt.inBackoff (now : Int) : Handover.inBackoff now left ue = Handover.inBackoff now right ue := by
  simp only [Handover.inBackoff, agree.blocks]

variable (settings : Settings D)

theorem AgreeAt.recentlyCommanded (now : Int) :
    Handover.recentlyCommanded settings now left ue = Handover.recentlyCommanded settings now right ue := by
  simp only [Handover.recentlyCommanded, agree.times, TreeMap.contains_eq_isSome_getElem?, agree.pending]

theorem AgreeAt.passGates (now : Int) :
    (Handover.passGates settings now left ue).2 = (Handover.passGates settings now right ue).2 ∧
      AgreeAt ue (Handover.passGates settings now left ue).1 (Handover.passGates settings now right ue).1 := by
  unfold Handover.passGates
  rw [agree.inBackoff now, agree.recentlyCommanded settings now]
  split
  · exact ⟨rfl, agree⟩
  · split
    · exact ⟨rfl, agree⟩
    · exact ⟨rfl, agree.times, agree.pending, by simp, agree.stopwatches⟩

theorem AgreeAt.clearReached (servingCellId : UInt16) : AgreeAt ue (Handover.clearReached left ue servingCellId)
    (Handover.clearReached right ue servingCellId) := by
  unfold Handover.clearReached
  rw [agree.pending]
  split
  · exact ⟨agree.times, by simp, agree.blocks, agree.stopwatches⟩
  · exact agree

theorem AgreeAt.passTtt (now : Int) (cellId : UInt16) :
    (Handover.passTtt settings now left ue cellId).2 = (Handover.passTtt settings now right ue cellId).2 ∧
      AgreeAt ue (Handover.passTtt settings now left ue cellId).1
        (Handover.passTtt settings now right ue cellId).1 := by
  unfold Handover.passTtt
  rw [agree.stopwatches]
  split
  · split
    · exact ⟨rfl, agree⟩
    · exact ⟨rfl, agree.times, agree.pending, agree.blocks, by simp⟩
  · exact ⟨rfl, agree.times, agree.pending, agree.blocks, by simp⟩

end Reads

/-- Two runs that have got to the same point, as far as a UE can tell. -/
structure AgreeProgress (ue : UInt64) (left right : Progress) : Prop where
  statics : AgreeAt ue left.statics right.statics
  load : left.effectiveLoad = right.effectiveLoad
  commands : left.commands = right.commands

variable {ue : UInt64} {left right : Progress}

theorem AgreeProgress.withStatics {leftStatics rightStatics : Statics} (agree : AgreeProgress ue left right)
    (statics : AgreeAt ue leftStatics rightStatics) :
    AgreeProgress ue { left with statics := leftStatics } { right with statics := rightStatics } :=
  ⟨statics, agree.load, agree.commands⟩

theorem AgreeProgress.handOver (agree : AgreeProgress ue left right) (settings : Settings D) (strategy : Strategy D)
    (call : Call D) (seen : Observation D) :
    AgreeProgress ue (Handover.handOver settings strategy call left ue seen)
      (Handover.handOver settings strategy call right ue seen) := by
  obtain ⟨statics, load, commands⟩ := agree
  unfold Handover.handOver
  dsimp only
  rw [load]
  split
  · exact ⟨statics, load, commands⟩
  · split
    · exact ⟨⟨statics.times, statics.pending, by simp [clearTtt], by simp [clearTtt]⟩, rfl, commands⟩
    · exact ⟨⟨statics.times, statics.pending, statics.blocks, by simp [clearTtt]⟩, rfl, commands⟩
    · next cellId _ =>
        obtain ⟨elapsed, clicked⟩ := statics.passTtt settings call.now cellId
        rw [elapsed]
        split
        · refine ⟨⟨?_, ?_, clicked.blocks, ?_⟩, ?_, ?_⟩ <;> simp [issue, commands]
        · exact ⟨clicked, rfl, commands⟩

variable {ueInfo : UeInfo}

theorem AgreeProgress.considerUe (agree : AgreeProgress ueInfo.nodeId left right) (settings : Settings D)
    (strategy : Strategy D) (call : Call D) :
    AgreeProgress ueInfo.nodeId (considerUe settings strategy call left ueInfo)
      (considerUe settings strategy call right ueInfo) := by
  obtain ⟨passed, gates⟩ := agree.statics.passGates settings call.now
  rw [considerUe_eq, considerUe_eq]
  dsimp only
  rw [passed]
  split
  · split
    · exact (agree.withStatics (gates.clearReached _)).handOver settings strategy call _
    · exact agree.withStatics gates
  · exact agree.withStatics gates

section Frames

variable {ue other : UInt64} (different : ue ≠ other)

include different

variable (settings : Settings D)

theorem passGates_frame (now : Int) (statics : Statics) :
    AgreeAt other (passGates settings now statics ue).1 statics := by
  unfold passGates
  split
  · exact .refl other statics
  · split
    · exact .refl other statics
    · exact ⟨rfl, rfl, by simp [TreeMap.getElem?_erase, different], rfl⟩

theorem clearReached_frame (statics : Statics) (servingCellId : UInt16) :
    AgreeAt other (clearReached statics ue servingCellId) statics := by
  unfold clearReached
  split
  · exact ⟨rfl, by simp [TreeMap.getElem?_erase, different], rfl, rfl⟩
  · exact .refl other statics

omit different in
theorem passTtt_fields (now : Int) (statics : Statics) (ue : UInt64) (cellId : UInt16) :
    (passTtt settings now statics ue cellId).1.lastHoCmdTime = statics.lastHoCmdTime ∧
      (passTtt settings now statics ue cellId).1.pendingHoTarget = statics.pendingHoTarget ∧
        (passTtt settings now statics ue cellId).1.lowRsrpBlockUntil =
          statics.lowRsrpBlockUntil := by
  unfold passTtt
  split
  · split <;> exact ⟨rfl, rfl, rfl⟩
  · exact ⟨rfl, rfl, rfl⟩

theorem handOver_frame (strategy : Strategy D) (call : Call D)
    (progress : Progress) (seen : Observation D) :
    AgreeAt other (handOver settings strategy call progress ue seen).statics progress.statics := by
  unfold handOver
  dsimp only
  split
  · exact .refl other progress.statics
  · split
    · exact ⟨rfl, rfl, by simp [clearTtt, TreeMap.getElem?_insert, different],
        by simp [clearTtt, TreeMap.getElem?_erase, different]⟩
    · exact ⟨rfl, rfl, rfl, by simp [clearTtt, TreeMap.getElem?_erase, different]⟩
    · next cellId _ =>
        have clicked : AgreeAt other (passTtt settings call.now progress.statics ue cellId).1
            progress.statics := by
          obtain ⟨times, pending, blocks⟩ :=
            passTtt_fields settings call.now progress.statics ue cellId
          exact ⟨by rw [times], by rw [pending], by rw [blocks],
            (passTtt_spec settings call.now _ ue cellId).2.2 other different.symm⟩
        split
        · refine AgreeAt.trans ?_ clicked
          constructor <;>
            simp [issue, TreeMap.getElem?_insert, TreeMap.getElem?_erase, different]
        · exact clicked

/-- The turn of a UE leaves the entries of the others. -/
theorem considerUe_frame (strategy : Strategy D) (call : Call D)
    (progress : Progress) {ueInfo : UeInfo} (its : ueInfo.nodeId = ue) :
    AgreeAt other (considerUe settings strategy call progress ueInfo).statics progress.statics := by
  subst its
  have gates := passGates_frame different settings call.now progress.statics
  rw [considerUe_eq]
  dsimp only
  split
  · split
    · exact (handOver_frame different settings strategy call _ _).trans
        ((clearReached_frame different _ _).trans gates)
    · exact gates
  · exact gates

end Frames

/-- The tables are the same as far as a run over some UEs can tell: in the entries
of these UEs and in the pending handovers, with their times, of all UEs. -/
structure SameFor (reads : UInt64 -> Prop) (left right : Statics) : Prop where
  own : ∀ ue, reads ue -> AgreeAt ue left right
  pending : ∀ ue : UInt64, left.pendingHoTarget[ue]? = right.pendingHoTarget[ue]?
  times : ∀ ue : UInt64, left.pendingHoTarget[ue]? ≠ none -> left.lastHoCmdTime[ue]? = right.lastHoCmdTime[ue]?

theorem SameFor.refl (reads : UInt64 -> Prop) (statics : Statics) : SameFor reads statics statics :=
  ⟨fun ue _ => .refl ue statics, fun _ => rfl, fun _ _ => rfl⟩

variable {reads : UInt64 -> Prop}

theorem SameFor.trans {first second third : Statics}
    (one : SameFor reads first second) (two : SameFor reads second third) : SameFor reads first third :=
  ⟨fun ue read => (one.own ue read).trans (two.own ue read), fun ue => (one.pending ue).trans (two.pending ue),
    fun ue pending => (one.times ue pending).trans (two.times ue (one.pending ue ▸ pending))⟩

theorem getElem?_pruned (settings : Settings D) (now : Int) (statics : Statics) (ue : UInt64) :
    (prunePending settings now statics).pendingHoTarget[ue]? = statics.pendingHoTarget[ue]?.filter fun _ =>
        match statics.lastHoCmdTime[ue]? with
        | none => false
        | some time => !(settings.hoAttemptTimeout ≤ now - time) := by
  exact TreeMap.getElem?_filter'

variable {left right statics : Statics} {ue : UInt64} {effectiveLoad : LoadMap}

theorem SameFor.pruned
    (same : SameFor reads left right) (settings : Settings D) (now : Int) :
    SameFor reads (prunePending settings now left) (prunePending settings now right) := by
  have pending : ∀ ue : UInt64, (prunePending settings now left).pendingHoTarget[ue]? =
      (prunePending settings now right).pendingHoTarget[ue]? := by
    intro ue
    rw [getElem?_pruned, getElem?_pruned, ← same.pending ue]
    cases found : left.pendingHoTarget[ue]? with
    | none => rfl
    | some cellId => rw [same.times ue (by simp [found])]
  refine ⟨fun ue read => ?_, pending, fun ue found => same.times ue fun none => found ?_⟩
  · exact ⟨(same.own ue read).times, pending ue, (same.own ue read).blocks,
      (same.own ue read).stopwatches⟩
  · rw [getElem?_pruned, none]
    rfl

theorem SameFor.reservedLoad
    (same : SameFor reads left right) (settings : Settings D) (strategy : Strategy D) (call : Call D) :
    Handover.reservedLoad settings strategy call left = Handover.reservedLoad settings strategy call right := by
  have equivalent := TreeMap.Equiv.of_forall_constGet?_eq (same.pruned settings call.now).pending
  rw [Handover.reservedLoad, Handover.reservedLoad, stillPending, stillPending, equivalent.toList_eq]

theorem SameFor.considerUe {left right : Progress}
    (same : SameFor reads left.statics right.statics) (read : reads ueInfo.nodeId)
    (load : left.effectiveLoad = right.effectiveLoad) (commands : left.commands = right.commands)
    (settings : Settings D) (strategy : Strategy D) (call : Call D) :
    SameFor reads (considerUe settings strategy call left ueInfo).statics
      (considerUe settings strategy call right ueInfo).statics := by
  have agree := (AgreeProgress.considerUe ⟨same.own _ read, load, commands⟩
    settings strategy call).statics
  have frame := fun (progress : Progress) {other : UInt64} (different : ueInfo.nodeId ≠ other) =>
    considerUe_frame different settings strategy call progress rfl
  constructor
  · intro ue reads
    by_cases its : ueInfo.nodeId = ue
    · exact its ▸ agree
    · exact (frame left its).trans ((same.own ue reads).trans (frame right its).symm)
  · intro ue
    by_cases its : ueInfo.nodeId = ue
    · exact its ▸ agree.pending
    · rw [(frame left its).pending, (frame right its).pending, same.pending ue]
  · intro ue pending
    by_cases its : ueInfo.nodeId = ue
    · exact its ▸ agree.times
    · rw [(frame left its).pending] at pending
      rw [(frame left its).times, (frame right its).times, same.times ue pending]

theorem SameFor.getHandoverCommands (same : SameFor reads left right) (settings : Settings D) (strategy : Strategy D)
    (call : Call D) (read : ∀ ueInfo ∈ call.ueInfos, reads ueInfo.nodeId) :
    (Handover.getHandoverCommands settings strategy call left).commands =
        (Handover.getHandoverCommands settings strategy call right).commands ∧
      SameFor reads (Handover.getHandoverCommands settings strategy call left).statics
        (Handover.getHandoverCommands settings strategy call right).statics := by
  suffices all : ∀ ueInfos : List UeInfo, (∀ ueInfo ∈ ueInfos, reads ueInfo.nodeId) ->
      ∀ left right : Progress, SameFor reads left.statics right.statics ->
        left.effectiveLoad = right.effectiveLoad -> left.commands = right.commands ->
          (ueInfos.foldl (Handover.considerUe settings strategy call) left).commands =
              (ueInfos.foldl (Handover.considerUe settings strategy call) right).commands ∧
            SameFor reads (ueInfos.foldl (Handover.considerUe settings strategy call) left).statics
              (ueInfos.foldl (Handover.considerUe settings strategy call) right).statics from
    all _ read _ _ (same.pruned settings call.now) (same.reservedLoad settings strategy call) rfl
  intro ueInfos read
  induction ueInfos with
  | nil => exact fun left right same _ commands => ⟨commands, same⟩
  | cons ueInfo rest ih =>
    intro left right same load commands
    have isRead := read ueInfo mem_cons_self
    have agree := AgreeProgress.considerUe ⟨same.own _ isRead, load, commands⟩ settings strategy call
    exact ih (fun other mem => read other (mem_cons_of_mem _ mem)) _ _
      (same.considerUe isRead load commands settings strategy call) agree.load agree.commands

/-- The turn of a UE writes nothing that a run over the UEs of `reads` reads: it
issues no command and clears no pending handover, and it leaves the backoff and
the stopwatch of a UE of `reads`. -/
structure SilentTurn (reads : UInt64 -> Prop) (settings : Settings D) (strategy : Strategy D)
    (call : Call D) (statics : Statics) (effectiveLoad : LoadMap) (ue : UInt64) : Prop where
  backoff : reads ue -> call.now < settings.warmup ∨ inBackoff call.now statics ue = true ∨
    statics.lowRsrpBlockUntil[ue]? = none
  reached : (passGates settings call.now statics ue).2 = true ->
    strategy.usable (observation strategy call ue) = true ->
      statics.pendingHoTarget[ue]? ≠ some (observation strategy call ue).servingCellId
  keep : choiceFor settings strategy call ⟨statics, effectiveLoad, []⟩ ue = some .keep ->
    reads ue -> statics.tttState[ue]? = none
  lowRsrp : choiceFor settings strategy call ⟨statics, effectiveLoad, []⟩ ue = some .lowRsrp -> ¬reads ue
  waits : ∀ cellId, choiceFor settings strategy call ⟨statics, effectiveLoad, []⟩ ue = some (.target cellId) ->
      (passTtt settings call.now statics ue cellId).2 = false ∧
        (reads ue -> ∃ start, statics.tttState[ue]? = some (cellId, start))

/-- A run that writes nothing another one reads: every pending handover is still
in time, and the turn of every UE is silent. -/
structure SilentRun (reads : UInt64 -> Prop) (settings : Settings D) (strategy : Strategy D)
    (call : Call D) (statics : Statics) : Prop where
  inTime : ∀ (ue : UInt64) (cellId : UInt16), statics.pendingHoTarget[ue]? = some cellId ->
    ∃ time, statics.lastHoCmdTime[ue]? = some time ∧ call.now - time < settings.hoAttemptTimeout
  turns : ∀ ueInfo ∈ call.ueInfos, SilentTurn reads settings strategy call statics
    (reservedLoad settings strategy call statics) ueInfo.nodeId

theorem AgreeAt.choiceFor (agree : AgreeAt ue left right)
    (settings : Settings D) (strategy : Strategy D) (call : Call D) (effectiveLoad : LoadMap)
    (before after : List Issued) :
    Handover.choiceFor settings strategy call ⟨left, effectiveLoad, before⟩ ue =
      Handover.choiceFor settings strategy call ⟨right, effectiveLoad, after⟩ ue := by
  simp only [Handover.choiceFor, (agree.passGates settings call.now).1]

variable {settings : Settings D} {strategy : Strategy D} {call : Call D}

theorem SilentTurn.congr
    (silent : SilentTurn reads settings strategy call left effectiveLoad ue) (agree : AgreeAt ue left right) :
    SilentTurn reads settings strategy call right effectiveLoad ue := by
  obtain ⟨backoff, reached, keep, lowRsrp, waits⟩ := silent
  have choice := agree.choiceFor settings strategy call effectiveLoad [] []
  constructor
  · rwa [← agree.inBackoff, ← agree.blocks]
  · rwa [← (agree.passGates settings call.now).1, ← agree.pending]
  · rwa [← choice, ← agree.stopwatches]
  · rwa [← choice]
  · intro cellId
    rw [← choice, ← (agree.passTtt settings call.now cellId).1, ← agree.stopwatches]
    exact waits cellId

/-- A silent turn keeps the loads, the commands and all that is read. -/
structure Unnoticed (reads : UInt64 -> Prop) (ue : UInt64) (before after : Progress) : Prop where
  load : after.effectiveLoad = before.effectiveLoad
  commands : after.commands = before.commands
  times : after.statics.lastHoCmdTime[ue]? = before.statics.lastHoCmdTime[ue]?
  pending : after.statics.pendingHoTarget[ue]? = before.statics.pendingHoTarget[ue]?
  own : reads ue -> AgreeAt ue after.statics before.statics

theorem SilentTurn.gates
    (silent : SilentTurn reads settings strategy call statics effectiveLoad ue) (read : reads ue) :
    AgreeAt ue (passGates settings call.now statics ue).1 statics := by
  unfold passGates
  split
  · exact .refl ue statics
  · next warm =>
      split
      · exact .refl ue statics
      · next unblocked =>
          rcases silent.backoff read with warmup | blocked | absent
          · exact absurd warmup warm
          · exact absurd blocked unblocked
          · exact ⟨rfl, rfl, by simp [absent], rfl⟩

theorem passGates_times_pending (settings : Settings D) (now : Int) (statics : Statics) (ue : UInt64) :
    (passGates settings now statics ue).1.lastHoCmdTime = statics.lastHoCmdTime ∧
      (passGates settings now statics ue).1.pendingHoTarget = statics.pendingHoTarget := by
  unfold passGates
  split
  · exact ⟨rfl, rfl⟩
  · split <;> exact ⟨rfl, rfl⟩

variable {progress : Progress}

theorem handOver_unnoticed
    (silent : SilentTurn reads settings strategy call progress.statics progress.effectiveLoad ue)
    (passed : (passGates settings call.now progress.statics ue).2 = true)
    (usable : strategy.usable (observation strategy call ue) = true) :
    Unnoticed reads ue progress (handOver settings strategy call
      { progress with statics := (passGates settings call.now progress.statics ue).1 } ue
      (observation strategy call ue)) := by
  obtain ⟨times, pending⟩ := passGates_times_pending settings call.now progress.statics ue
  have stopwatches := passGates_tttState settings call.now progress.statics ue
  have gates := silent.gates
  generalize (passGates settings call.now progress.statics ue).1 = gated at *
  unfold handOver
  dsimp only
  split
  · exact ⟨rfl, rfl, by rw [times], by rw [pending], gates⟩
  · next known =>
      have choice : choiceFor settings strategy call ⟨progress.statics, progress.effectiveLoad, []⟩
          ue = some (strategy.choose call (observation strategy call ue) progress.effectiveLoad) := by
        simp [choiceFor, passed, usable, known]
      split
      · next chosen =>
          have unread := silent.lowRsrp (choice.trans (congrArg some chosen))
          exact ⟨rfl, rfl, by simp [clearTtt, times], by simp [clearTtt, pending], fun read => absurd read unread⟩
      · next chosen =>
          have stopped := silent.keep (choice.trans (congrArg some chosen))
          refine ⟨rfl, rfl, by simp [clearTtt, times], by simp [clearTtt, pending], fun read => ?_⟩
          exact ⟨(gates read).times, (gates read).pending, (gates read).blocks,
            by simp [clearTtt, stopped read]⟩
      · next cellId chosen =>
          obtain ⟨waits, runs⟩ := silent.waits cellId (choice.trans (congrArg some chosen))
          obtain ⟨elapsed, own, -⟩ := passTtt_spec settings call.now gated ue cellId
          obtain ⟨sameTimes, samePending, sameBlocks⟩ :=
            passTtt_fields settings call.now gated ue cellId
          have short : (passTtt settings call.now gated ue cellId).2 = false := by
            rw [elapsed, stopwatches, ← (passTtt_spec settings call.now _ ue cellId).1]
            exact waits
          rw [short, if_neg Bool.false_ne_true]
          refine ⟨rfl, rfl, by rw [sameTimes, times], by rw [samePending, pending], fun read => ?_⟩
          obtain ⟨start, running⟩ := runs read
          refine ⟨by rw [sameTimes, times], by rw [samePending, pending],
            by rw [sameBlocks, (gates read).blocks], ?_⟩
          rw [own, stopwatches, running]
          simp [since]

theorem considerUe_unnoticed
    (silent : SilentTurn reads settings strategy call progress.statics progress.effectiveLoad ueInfo.nodeId) :
    Unnoticed reads ueInfo.nodeId progress (considerUe settings strategy call progress ueInfo) := by
  obtain ⟨times, pending⟩ :=
    passGates_times_pending settings call.now progress.statics ueInfo.nodeId
  have gated : ∀ statics, statics = (passGates settings call.now progress.statics ueInfo.nodeId).1 ->
      Unnoticed reads ueInfo.nodeId progress { progress with statics := statics } := by
    rintro statics rfl
    exact ⟨rfl, rfl, by rw [times], by rw [pending], silent.gates⟩
  rw [considerUe_eq]
  dsimp only
  split
  · next passed =>
      split
      · next usable =>
          have unreached : clearReached (passGates settings call.now progress.statics ueInfo.nodeId).1 ueInfo.nodeId
                (observation strategy call ueInfo.nodeId).servingCellId =
              (passGates settings call.now progress.statics ueInfo.nodeId).1 := by
            rw [clearReached, pending, if_neg (silent.reached passed usable)]
          rw [unreached]
          exact handOver_unnoticed silent passed usable
      · exact gated _ rfl
  · exact gated _ rfl

theorem Unnoticed.sameFor (unnoticed : Unnoticed reads ueInfo.nodeId progress
      (considerUe settings strategy call progress ueInfo)) :
    SameFor reads (considerUe settings strategy call progress ueInfo).statics
      progress.statics := by
  have frame := fun {other : UInt64} (different : ueInfo.nodeId ≠ other) =>
    considerUe_frame different settings strategy call progress rfl
  constructor
  · intro ue read
    by_cases its : ueInfo.nodeId = ue
    · exact its ▸ unnoticed.own (its ▸ read)
    · exact frame its
  · intro ue
    by_cases its : ueInfo.nodeId = ue
    · exact its ▸ unnoticed.pending
    · exact (frame its).pending
  · intro ue _
    by_cases its : ueInfo.nodeId = ue
    · exact its ▸ unnoticed.times
    · exact (frame its).times

/-- Silent turns, of one UE each, leave what is read as it was. -/
theorem foldl_silent {ueInfos : List UeInfo} (distinct : (ueInfos.map UeInfo.nodeId).Nodup) (progress : Progress)
    (silent : ∀ ueInfo ∈ ueInfos, SilentTurn reads settings strategy call progress.statics
      progress.effectiveLoad ueInfo.nodeId) :
    SameFor reads (ueInfos.foldl (considerUe settings strategy call) progress).statics
      progress.statics := by
  induction ueInfos generalizing progress with
  | nil => exact .refl reads progress.statics
  | cons ueInfo rest ih =>
    obtain ⟨absent, distinct⟩ := nodup_cons.mp distinct
    have turn := considerUe_unnoticed (silent ueInfo mem_cons_self)
    refine (ih distinct _ fun other mem => ?_).trans turn.sameFor
    have different : ueInfo.nodeId ≠ other.nodeId := by
      intro same
      exact absent (List.mem_map.mpr ⟨other, mem, same.symm⟩)
    rw [turn.load]
    exact (silent other (mem_cons_of_mem _ mem)).congr
      (considerUe_frame different settings strategy call progress rfl).symm

theorem SilentRun.sameFor (silent : SilentRun reads settings strategy call statics) (distinct : EachUeOnce call) :
    SameFor reads (getHandoverCommands settings strategy call statics).statics statics := by
  have unpruned : ∀ ue, AgreeAt ue statics (prunePending settings call.now statics) := by
    refine fun ue => ⟨rfl, ?_, rfl, rfl⟩
    rw [getElem?_pruned]
    cases pending : statics.pendingHoTarget[ue]? with
    | none => rfl
    | some cellId =>
      obtain ⟨time, last, inTime⟩ := silent.inTime ue cellId pending
      simp [last, Option.filter, inTime]
  have turns := foldl_silent distinct
    ⟨prunePending settings call.now statics, reservedLoad settings strategy call statics, []⟩
    fun ueInfo mem => (silent.turns ueInfo mem).congr (unpruned ueInfo.nodeId)
  refine turns.trans ⟨fun ue _ => (unpruned ue).symm, fun ue => (unpruned ue).pending.symm, fun ue _ => rfl⟩

/-- A run of an instance on the tables, and the commands it returns. -/
def runOn {Config : Type} (settings : Config -> Settings D) (strategy : Config -> Strategy D)
    (action : Config × Call D) (statics : Statics) : Statics × List Issued :=
  let result := getHandoverCommands (settings action.1) (strategy action.1) action.2 statics
  (result.statics, result.commands)

/-- Tables that are the same for the UEs of an instance unwind its runs. -/
theorem unwinding {Config : Type} (settings : Config -> Settings D)
    (strategy : Config -> Strategy D) (reads : UInt64 -> Prop) :
    Unwinding (runOn settings strategy) (SameFor reads)
      (fun action => ∀ ueInfo ∈ action.2.ueInfos, reads ueInfo.nodeId)
      (fun statics action => EachUeOnce action.2 ∧
        SilentRun reads (settings action.1) (strategy action.1) action.2 statics) where
  trans := SameFor.trans
  output own same := (same.getHandoverCommands _ _ _ own).1
  consistent own same := (same.getHandoverCommands _ _ _ own).2
  silent isSilent := isSilent.2.sameFor isSilent.1

/-- The UEs that the runs of an instance consider. -/
def consideredBy {Instance Config : Type} (observer : Instance)
    (actions : List (Instance × (Config × Call D))) (ue : UInt64) : Prop :=
  ∃ entry ∈ actions, entry.1 = observer ∧ ∃ ueInfo ∈ entry.2.2.ueInfos, ueInfo.nodeId = ue

variable [Decibel D]

/-- In any interleaving with runs of other instances that are all silent for it,
an instance of `OranLmNr2NrRsrpHandoverWithCellLoad` emits the commands it emits
when the others are never executed. -/
theorem instances_do_not_interfere {Instance : Type} [DecidableEq Instance] (observer : Instance)
    (start : Statics) (actions : List (Instance × (Settings D × Call D)))
    (distinct : ∀ entry ∈ actions, EachUeOnce entry.2.2)
    (silent : Throughout (fun earlier entry => entry.1 ≠ observer ->
      SilentRun (consideredBy observer actions) entry.2.1 (CellLoad.strategy entry.2.1) entry.2.2
        (after (runOn id CellLoad.strategy) start earlier)) actions) :
    outputsOf (runOn id CellLoad.strategy) observer start actions =
      outputsOf (runOn id CellLoad.strategy) observer start (alone observer actions) := by
  apply (unwinding id CellLoad.strategy (consideredBy observer actions)).outputsOf_alone (.refl _ start)
  · rintro entry member its ueInfo listed
    exact ⟨entry, member, its, ueInfo, listed, rfl⟩
  · intro earlier entry later split other
    exact ⟨distinct entry (by simp [split]), silent earlier entry later split other⟩

/-- Two instances of the module. -/
inductive TwoModules where
  | default
  | additional
  deriving DecidableEq

/-- UE 7, of which nothing is measured, at some instant. -/
def hearsNoCell (now : Int) : Call Int :=
  { hearsNothing now with ueInfos := [⟨7, 1, 1⟩] }

theorem hearsNoCell_silent (reads : UInt64 -> Prop) :
    SilentRun reads oneUePerCell (CellLoad.strategy oneUePerCell) (hearsNoCell 5) ⟨∅, ∅, ∅, ∅⟩ := by
  have unseen : choiceFor oneUePerCell (CellLoad.strategy oneUePerCell) (hearsNoCell 5)
      ⟨⟨∅, ∅, ∅, ∅⟩, reservedLoad oneUePerCell (CellLoad.strategy oneUePerCell) (hearsNoCell 5)
        ⟨∅, ∅, ∅, ∅⟩, []⟩ 7 = none := by
    decide +kernel
  refine ⟨by simp, fun ueInfo mem => ?_⟩
  obtain rfl := mem_singleton.mp mem
  exact ⟨fun _ => .inr (.inr (by simp)), by simp, by simp [unseen], by simp [unseen],
    by simp [unseen]⟩

/-- The additional module considers another UE, which it leaves alone. -/
theorem otherUe_does_not_interfere :
    outputsOf (runOn id CellLoad.strategy) TwoModules.default ⟨∅, ∅, ∅, ∅⟩
        [(.additional, (oneUePerCell, hearsNoCell 5)), (.default, (oneUePerCell, hearsBetter 6))] =
      outputsOf (runOn id CellLoad.strategy) TwoModules.default ⟨∅, ∅, ∅, ∅⟩
        (alone .default
          [(.additional, (oneUePerCell, hearsNoCell 5)), (.default, (oneUePerCell, hearsBetter 6))]) := by
  apply instances_do_not_interfere
  · simp [EachUeOnce, hearsBetter, hearsNoCell, hearsNothing]
  · intro earlier entry later split other
    rcases earlier with _ | ⟨first, _ | ⟨second, rest⟩⟩
    · obtain ⟨rfl, -⟩ := List.cons.inj split
      exact hearsNoCell_silent _
    · simp only [cons_append, nil_append, List.cons.injEq] at split
      exact absurd (congrArg Prod.fst split.2.1).symm other
    · simp at split

/-- A command of the additional module keeps the default one from issuing its own. -/
theorem additional_module_interferes : outputsOf (runOn id CellLoad.strategy) TwoModules.default ⟨∅, ∅, ∅, ∅⟩
      [(.additional, (oneUePerCell, hearsBetter 5)), (.default, (oneUePerCell, hearsBetter 6))] ≠
    outputsOf (runOn id CellLoad.strategy) TwoModules.default ⟨∅, ∅, ∅, ∅⟩ (alone .default
        [(.additional, (oneUePerCell, hearsBetter 5)), (.default, (oneUePerCell, hearsBetter 6))]) := by
  decide +kernel

end Ns3.Oran.Handover
