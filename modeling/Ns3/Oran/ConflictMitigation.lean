import Ns3.Oran.DataRepository.Model
import Ns3.Oran.NearRtRic.Model

/-!
# One command for each E2 node

`OranCmmSingleCommandPerNode` keeps, for each affected node, the first command of the default logic
module, or else the first command: `winner`. The node a handover affects is looked up in the
repository and is node 0 if that fails, so handovers of different UEs can share a node.
-/

namespace Ns3.Oran.ConflictMitigation

open Ns3.Oran.DataRepository List Option
open Ns3.Oran.NearRtRic (LmKey)
open Std (TreeMap)

/-- What a command asks for, over any type of other commands. -/
inductive Order (P : Type) where
  | lte2LteHandover (targetCellId targetRnti : UInt16)
  | nr2NrHandover (targetCellId targetRnti : UInt16)
  | other (payload : P)
  deriving DecidableEq

/-- `OranCommand`. -/
structure Command (P : Type) where
  targetE2NodeId : UInt64
  order : Order P
  deriving DecidableEq

/-- The input of `Filter`: the commands of each logic module. -/
abbrev CommandMap (P : Type) := TreeMap LmKey (List (Command P))

/-- A command in the input, with whether the default logic module issued it. -/
structure Entry (P : Type) where
  defaultLm : Bool
  command : Command P
  deriving DecidableEq

variable {D P : Type}

variable (data : Repository D)

/-- The E2 node a command affects. Whether the cell was found is not looked at. -/
def affectedNodeId (command : Command P) : UInt64 :=
  match command.order with
  | .lte2LteHandover _ targetRnti =>
    let (_, cellId) := getLteEnbCellInfo data command.targetE2NodeId
    getLteUeE2NodeIdFromCellInfo data cellId targetRnti
  | .nr2NrHandover _ targetRnti =>
    let (_, cellId) := getNrGnbCellInfo data command.targetE2NodeId
    getNrUeE2NodeIdFromCellInfo data cellId targetRnti
  | .other _ => command.targetE2NodeId

/-- The local maps of `Filter`. -/
structure Selection (P : Type) where
  affectedNodes : TreeMap UInt64 Bool
  selectedCommands : TreeMap UInt64 (Command P)

/-- The body of the inner loop of `Filter`. -/
def consider (defaultLm : Bool) (selection : Selection P) (command : Command P) : Selection P :=
  let node := affectedNodeId data command
  match selection.affectedNodes[node]? with
  | some oldDefault =>
    if defaultLm && !oldDefault then
      ⟨selection.affectedNodes.insert node defaultLm, selection.selectedCommands.insert node command⟩
    else
      selection
  | none =>
    ⟨selection.affectedNodes.insert node defaultLm, selection.selectedCommands.insert node command⟩

/-- The loops of `Filter`, in the order of the map. -/
def select (input : CommandMap P) : Selection P :=
  input.toList.foldl (fun selection commandSet =>
    commandSet.2.foldl (consider data (ofLex commandSet.1).2) selection) ⟨∅, ∅⟩

/-- `OranCmmSingleCommandPerNode`. `nearRtRic` is the data repository of
`m_nearRtRic` when that is set. -/
structure Cmm (D : Type) where
  nearRtRic : Option (Repository D)
  active : Bool

/-- `OranCmmSingleCommandPerNode::Filter`; it aborts without a RIC. -/
def filter (cmm : Cmm D) (input : CommandMap P) : Option (List (Command P)) :=
  match cmm.nearRtRic with
  | none => none
  | some data =>
    if cmm.active then
      some ((select data input).selectedCommands.toList.map Prod.snd)
    else
      some (input.toList.flatMap Prod.snd)

/-- The input in map order. -/
def entries (input : CommandMap P) : List (Entry P) :=
  input.toList.flatMap fun commandSet => commandSet.2.map (Entry.mk (ofLex commandSet.1).2)

/-- The entry whose command a node gets: the first of the default logic module,
otherwise the first. -/
def winner (entries : List (Entry P)) (node : UInt64) : Option (Entry P) :=
  let affecting := entries.filter fun entry => affectedNodeId data entry.command = node
  (affecting.find? Entry.defaultLm).or affecting.head?

/-- One more entry wins its node if the node had none, or had none of the default
logic module and this is one. -/
theorem winner_append_singleton (before : List (Entry P)) (last : Entry P) (node : UInt64) :
    winner data (before ++ [last]) node =
      if affectedNodeId data last.command = node then
        match winner data before node with
        | none => some last
        | some old => if last.defaultLm && !old.defaultLm then some last else some old
      else
        winner data before node := by
  by_cases affects : affectedNodeId data last.command = node
  · simp only [winner, filter_append, affects, if_true, find?_append]
    generalize before.filter (fun entry => affectedNodeId data entry.command = node) = affecting
    cases found : affecting.find? Entry.defaultLm with
    | some first =>
      have isDefault := find?_some found
      simp [isDefault]
    | none =>
      cases affecting with
      | nil => cases isDefault : last.defaultLm <;> simp [affects, isDefault]
      | cons head rest =>
        have notDefault : head.defaultLm = false := by
          simpa using find?_eq_none.mp found head mem_cons_self
        cases isDefault : last.defaultLm <;> simp [affects, isDefault, notDefault]
  · simp [winner, filter_append, affects]

/-- The maps hold the winners of the entries considered so far. -/
structure Selected (data : Repository D) (considered : List (Entry P)) (selection : Selection P) :
    Prop where
  affectedNodes : ∀ node, selection.affectedNodes[node]? = (winner data considered node).map Entry.defaultLm
  selectedCommands : ∀ node, selection.selectedCommands[node]? = (winner data considered node).map Entry.command

variable {data : Repository D} {selection : Selection P} {entry : Entry P}

theorem winner_append_of_ne (before : List (Entry P)) {last : Entry P}
    {node : UInt64} (elsewhere : affectedNodeId data last.command ≠ node) :
    winner data (before ++ [last]) node = winner data before node := by
  rw [winner_append_singleton, if_neg elsewhere]

variable {considered : List (Entry P)}

section

variable (selected : Selected data considered selection)
include selected

theorem Selected.store
    (wins : winner data (considered ++ [entry]) (affectedNodeId data entry.command) = some entry) :
    Selected data (considered ++ [entry])
      ⟨selection.affectedNodes.insert (affectedNodeId data entry.command) entry.defaultLm,
        selection.selectedCommands.insert (affectedNodeId data entry.command) entry.command⟩ := by
  constructor <;> intro node
  all_goals
    rw [TreeMap.getElem?_insert]
    by_cases affects : affectedNodeId data entry.command = node
    · subst affects
      simp [wins]
    · simp [winner_append_of_ne _ affects, affects, selected.affectedNodes, selected.selectedCommands]

theorem Selected.ignore
    (loses : winner data (considered ++ [entry]) (affectedNodeId data entry.command) =
      winner data considered (affectedNodeId data entry.command)) :
    Selected data (considered ++ [entry]) selection := by
  have same : ∀ node, winner data (considered ++ [entry]) node = winner data considered node := by
    intro node
    by_cases affects : affectedNodeId data entry.command = node
    · exact affects ▸ loses
    · exact winner_append_of_ne _ affects
  constructor <;> intro node
  · rw [same, selected.affectedNodes]
  · rw [same, selected.selectedCommands]

theorem Selected.consider (entry : Entry P) :
    Selected data (considered ++ [entry]) (consider data entry.defaultLm selection entry.command) := by
  have held := selected.affectedNodes (affectedNodeId data entry.command)
  have appended := winner_append_singleton data considered entry (affectedNodeId data entry.command)
  rw [if_pos rfl] at appended
  unfold ConflictMitigation.consider
  cases won : winner data considered (affectedNodeId data entry.command) with
  | none =>
    simp only [held, won, map_none]
    exact selected.store (by simp [appended, won])
  | some old =>
    simp only [held, won, map_some]
    cases replaces : entry.defaultLm && !old.defaultLm with
    | true => exact selected.store (by simp [appended, won, replaces])
    | false => exact selected.ignore (by simp [appended, won, replaces])

end

theorem select_selected (data : Repository D) (input : CommandMap P) :
    Selected data (entries input) (select data input) := by
  have flattened : select data input = (entries input).foldl
      (fun selection entry => consider data entry.defaultLm selection entry.command) ⟨∅, ∅⟩ := by
    simp [select, entries, foldl_flatMap, foldl_map]
  rw [flattened]
  induction entries input using reverseRecOn with
  | nil => constructor <;> simp [winner]
  | append_singleton considered entry ih =>
    rw [foldl_append]
    exact ih.consider entry

section Winner

variable {data : Repository D} {input : List (Entry P)} {node : UInt64} {entry : Entry P}

theorem winner_mem (won : winner data input node = some entry) :
    entry ∈ input ∧ affectedNodeId data entry.command = node := by
  have mem : entry ∈ input.filter fun other => affectedNodeId data other.command = node := by
    rcases or_eq_some_iff.mp won with isDefault | ⟨-, isHead⟩
    · exact mem_of_find?_eq_some isDefault
    · exact mem_of_head? isHead
  simpa using mem

theorem exists_winner (mem : entry ∈ input) (affects : affectedNodeId data entry.command = node) :
    ∃ first, winner data input node = some first := by
  have inFilter : entry ∈ input.filter fun other => affectedNodeId data other.command = node := by
    simp [mem, affects]
  cases affecting : input.filter fun other => affectedNodeId data other.command = node with
  | nil => simp [affecting] at inFilter
  | cons head rest =>
    cases found : (head :: rest).find? Entry.defaultLm with
    | none => exact ⟨head, by simp [winner, affecting, found]⟩
    | some first => exact ⟨first, by simp [winner, affecting, found]⟩

theorem winner_defaultLm (won : winner data input node = some entry) {other : Entry P}
    (mem : other ∈ input) (affects : affectedNodeId data other.command = node)
    (isDefault : other.defaultLm = true) : entry.defaultLm = true := by
  rcases or_eq_some_iff.mp won with found | ⟨noDefault, -⟩
  · exact find?_some found
  · have inFilter : other ∈ input.filter fun other => affectedNodeId data other.command = node := by
      simp [mem, affects]
    exact absurd isDefault (find?_eq_none.mp noDefault other inFilter)

end Winner

/-- The E2 node that executes a handover and the RNTI it is for. -/
structure HandoverKey where
  technology : Technology
  targetE2NodeId : UInt64
  targetRnti : UInt16
  deriving DecidableEq

/-- The source base station and RNTI of a handover command. -/
def Command.handover? (command : Command P) : Option HandoverKey :=
  match command.order with
  | .lte2LteHandover _ targetRnti => some ⟨.lte, command.targetE2NodeId, targetRnti⟩
  | .nr2NrHandover _ targetRnti => some ⟨.nr, command.targetE2NodeId, targetRnti⟩
  | .other _ => none

/-- A command takes the place of another one that affects the same node. -/
def Displaces (data : Repository D) (output : List (Command P)) (kept lost : Command P) : Prop :=
  affectedNodeId data kept = affectedNodeId data lost ∧ kept ∈ output ∧ lost ∉ output

/-- What conflict mitigation promises, where `ueOf` is the UE that a base station
serves under an RNTI. -/
structure Mitigates {U : Type} (data : Repository D) (ueOf : HandoverKey -> U)
    (input : List (Entry P)) (output : List (Command P)) : Prop where
  single : (output.map (affectedNodeId data)).Nodup
  precedence : ∀ node, (∃ other ∈ input, affectedNodeId data other.command = node) -> ∃ entry ∈ input,
      output.filter (fun command => affectedNodeId data command = node) = [entry.command] ∧
      ((∃ other ∈ input, affectedNodeId data other.command = node ∧ other.defaultLm = true) ->
        entry.defaultLm = true) ∧
      ((∀ other ∈ input, affectedNodeId data other.command = node -> other.defaultLm = false) ->
        ∃ earlier later, input = earlier ++ entry :: later ∧
          ∀ before ∈ earlier, affectedNodeId data before.command ≠ node)
  separate : ∀ kept ∈ input, ∀ lost ∈ input, ∀ keptUe lostUe,
    kept.command.handover? = some keptUe -> lost.command.handover? = some lostUe ->
      ueOf keptUe ≠ ueOf lostUe -> ¬ Displaces data output kept.command lost.command

theorem winner_first {data : Repository D} {input : List (Entry P)} {node : UInt64}
    {entry : Entry P} (won : winner data input node = some entry)
    (noDefault : ∀ other ∈ input, affectedNodeId data other.command = node -> other.defaultLm = false) :
    ∃ earlier later, input = earlier ++ entry :: later ∧
      ∀ before ∈ earlier, affectedNodeId data before.command ≠ node := by
  rcases or_eq_some_iff.mp won with found | ⟨-, isHead⟩
  · obtain ⟨mem, affects⟩ := winner_mem won
    exact absurd (find?_some found) (by simp [noDefault entry mem affects])
  · rw [head?_filter] at isHead
    obtain ⟨-, earlier, later, split, before⟩ := find?_eq_some_iff_append.mp isHead
    exact ⟨earlier, later, split, fun other mem => by simpa using before other mem⟩

theorem filter_eq_singleton {α β : Type} [DecidableEq β] {f : α -> β} {list : List α} {value : α}
    (distinct : (list.map f).Nodup) (mem : value ∈ list) :
    list.filter (fun other => f other = f value) = [value] := by
  induction list with
  | nil => cases mem
  | cons head rest ih =>
    obtain ⟨fresh, restDistinct⟩ := nodup_cons.mp distinct
    rcases mem_cons.mp mem with rfl | inRest
    · have others : rest.filter (fun other => f other = f value) = [] := by
        simp only [filter_eq_nil_iff, decide_eq_true_eq]
        exact fun other inRest same => fresh (same ▸ List.mem_map_of_mem inRest)
      simp [others]
    · have ne : f head ≠ f value := fun same => fresh (same ▸ List.mem_map_of_mem inRest)
      simp [ne, ih restDistinct inRest]

section Output

variable {data : Repository D} {input : List (Entry P)} {selection : Selection P}

theorem Selected.mem_output (selected : Selected data input selection) {command : Command P} :
    command ∈ selection.selectedCommands.toList.map Prod.snd ↔
      ∃ entry, winner data input (affectedNodeId data command) = some entry ∧ entry.command = command := by
  simp only [List.mem_map, Prod.exists, TreeMap.mem_toList_iff_getElem?_eq_some,
    selected.selectedCommands, map_eq_some_iff]
  constructor
  · rintro ⟨node, _, ⟨entry, won, rfl⟩, rfl⟩
    exact ⟨entry, (winner_mem won).2.symm ▸ won, rfl⟩
  · rintro ⟨entry, won, rfl⟩
    exact ⟨_, _, ⟨entry, won, rfl⟩, rfl⟩

theorem Selected.output_nodup (selected : Selected data input selection) :
    ((selection.selectedCommands.toList.map Prod.snd).map (affectedNodeId data)).Nodup := by
  have keys : (selection.selectedCommands.toList.map Prod.snd).map (affectedNodeId data) =
      selection.selectedCommands.toList.map Prod.fst := by
    rw [List.map_map]
    apply map_congr_left
    rintro ⟨node, command⟩ mem
    rw [TreeMap.mem_toList_iff_getElem?_eq_some, selected.selectedCommands] at mem
    obtain ⟨entry, won, rfl⟩ := map_eq_some_iff.mp mem
    exact (winner_mem won).2
  rw [keys, TreeMap.map_fst_toList_eq_keys]
  exact TreeMap.nodup_keys

end Output

/-- Filtering mitigates conflicts exactly when no node goes to a handover of one
UE while a handover of another UE is taken to affect the same node. -/
theorem filter_mitigates_iff {U : Type} (data : Repository D) (ueOf : HandoverKey -> U)
    (input : CommandMap P) :
    ∃ output, filter ⟨some data, true⟩ input = some output ∧
      (Mitigates data ueOf (entries input) output ↔
        ∀ node entry, winner data (entries input) node = some entry ->
          ∀ other ∈ entries input, affectedNodeId data other.command = node ->
            ∀ ue otherUe, entry.command.handover? = some ue ->
              other.command.handover? = some otherUe -> ueOf ue = ueOf otherUe) := by
  have selected := select_selected data input
  refine ⟨_, rfl, ?_, ?_⟩
  · rintro mitigates node entry won other member affects ue otherUe isHandover otherHandover
    by_contra different
    obtain ⟨entryMember, entryAffects⟩ := winner_mem won
    refine mitigates.separate entry entryMember other member ue otherUe isHandover otherHandover
      different ⟨entryAffects.trans affects.symm, ?_, ?_⟩
    · exact selected.mem_output.mpr ⟨entry, entryAffects.symm ▸ won, rfl⟩
    · intro kept
      obtain ⟨last, lastWon, same⟩ := selected.mem_output.mp kept
      rw [affects, won] at lastWon
      cases lastWon
      rw [same, otherHandover] at isHandover
      exact different (congrArg ueOf (some.inj isHandover).symm)
  · intro sameUe
    refine ⟨selected.output_nodup, ?_, ?_⟩
    · rintro node ⟨other, member, affects⟩
      obtain ⟨entry, won⟩ := exists_winner member affects
      obtain ⟨entryMember, rfl⟩ := winner_mem won
      refine ⟨entry, entryMember, ?_, ?_, winner_first won⟩
      · exact filter_eq_singleton selected.output_nodup
          (selected.mem_output.mpr ⟨entry, won, rfl⟩)
      · rintro ⟨first, firstMember, firstAffects, isDefault⟩
        exact winner_defaultLm won firstMember firstAffects isDefault
    · rintro kept - lost lostMember keptUe lostUe keptHandover lostHandover different
        ⟨sameNode, inOutput, -⟩
      obtain ⟨entry, won, same⟩ := selected.mem_output.mp inOutput
      exact different (sameUe _ entry won lost lostMember sameNode.symm keptUe lostUe
        (same ▸ keptHandover) lostHandover)

/-- Handovers of two UEs of different gNBs. -/
def firstUe : Command Unit := ⟨1, .nr2NrHandover 2 1⟩

def secondUe : Command Unit := ⟨2, .nr2NrHandover 1 2⟩

/-- One logic module hands over both UEs. -/
def bothUes : CommandMap Unit :=
  (∅ : CommandMap Unit).insert (toLex ("lm", false)) [firstUe, secondUe]

/-- A fresh repository knows neither UE: both handovers affect node 0, and only
the first one is kept. -/
theorem unknown_ues_displace :
    ¬ ∀ (data : Repository Unit) (ueOf : HandoverKey -> HandoverKey) (input : CommandMap Unit),
      ∃ output, filter ⟨some data, true⟩ input = some output ∧ Mitigates data ueOf (entries input) output := by
  intro mitigated
  obtain ⟨output, filtered, mitigates⟩ := mitigated opened id bothUes
  have onlyFirst : output = [firstUe] := some.inj (filtered.symm.trans (by decide))
  subst onlyFirst
  refine mitigates.separate ⟨false, firstUe⟩ (by decide) ⟨false, secondUe⟩ (by decide)
    ⟨.nr, 1, 1⟩ ⟨.nr, 2, 2⟩ rfl rfl (by decide) ⟨?_, ?_, ?_⟩
  · decide
  · decide
  · decide

end Ns3.Oran.ConflictMitigation
