import Ns3.Oran.Handover.LoadAware

/-!
# Handover with cell load

`OranLmNr2NrRsrpHandoverWithCellLoad`: the strongest neighbour that beats the
serving cell by the hysteresis and has room, on carrier 0.
-/

namespace Ns3.Oran.Handover.CellLoad

open Ns3.Semantics.Booking
open Std (TreeMap)

variable {D : Type}

/-- A cell is full if it has a capacity and has reached it; a capacity of 0, its
own or the global one, is no limit. -/
def policy (settings : Settings D) : Policy UInt16 where
  admits cellId entry :=
    getCellCap settings cellId = 0 || entry.getD 0 < getCellCap settings cellId
  capacity := getCellCap settings
  within {cellId entry} admits limited := by
    simp only [Bool.or_eq_true, decide_eq_true_eq] at admits
    rcases admits with unlimited | room
    · simp [unlimited] at limited
    · exact room

variable [Decibel D]

/-- One measurement: the serving cell is the last serving one on carrier 0. -/
def observeMeasured (seen : Observation D) (measured : Measured D) : Observation D :=
  let (rnti, cellId, rsrp, _, isServing, ccId) := measured
  if ccId ≠ 0 then
    seen
  else
    let seen := if isServing then
      { seen with servingRsrp := rsrp, servingCellId := cellId, servingRnti := rnti }
    else
      seen
    { seen with bestRsrpPerCell := keepBest seen.bestRsrpPerCell cellId rsrp }

/-- The measurements of a UE. -/
def observe (measured : List (Measured D)) : Observation D :=
  measured.foldl observeMeasured ⟨Decibel.lowest, 0, 0, ∅⟩

/-- The candidates, strongest first. -/
def candidates (call : Call D) (seen : Observation D) : List (UInt16 × D) :=
  call.stdSort.sort (fun first second => Decibel.lt second.2 first.2)
    (seen.bestRsrpPerCell.toList.filter fun entry => cellKnown call.gnbInfos entry.1)

/-- The loop over the candidates. -/
def pickTarget (settings : Settings D) (seen : Observation D) (effectiveLoad : LoadMap) : List (UInt16 × D) -> Choice
  | [] => .keep
  | (cellId, rsrp) :: rest =>
    if cellId = seen.servingCellId then
      pickTarget settings seen effectiveLoad rest
    else if !Decibel.lt (Decibel.add seen.servingRsrp settings.rsrpThreshold) rsrp then
      pickTarget settings seen effectiveLoad rest
    else if Decibel.lt rsrp settings.minAcceptableRsrpDbm then
      .lowRsrp
    else if 0 < getCellCap settings cellId && getCellCap settings cellId ≤ load effectiveLoad cellId then
      if settings.tryNextBest then
        pickTarget settings seen effectiveLoad rest
      else
        .keep
    else
      .target cellId

variable {settings : Settings D} {seen : Observation D} {effectiveLoad : LoadMap} {cellId : UInt16}

theorem pickTarget_admitted {cands : List (UInt16 × D)}
    (picked : pickTarget settings seen effectiveLoad cands = .target cellId) :
    (policy settings).admits cellId effectiveLoad[cellId]? = true := by
  induction cands with
  | nil => cases picked
  | cons cand rest ih =>
    obtain ⟨candidate, rsrp⟩ := cand
    simp only [pickTarget] at picked
    split at picked
    · exact ih picked
    · split at picked
      · exact ih picked
      · split at picked
        · cases picked
        · split at picked
          · split at picked
            · exact ih picked
            · cases picked
          · next notFull =>
              obtain rfl := Choice.target.inj picked
              simp only [Bool.and_eq_true, decide_eq_true_eq, not_and, UInt32.not_le] at notFull
              simp only [policy, Bool.or_eq_true, decide_eq_true_eq]
              by_cases unlimited : getCellCap settings candidate = 0
              · exact .inl unlimited
              · exact .inr (notFull (UInt32.pos_iff_ne_zero.mpr unlimited))

/-- A cell beats the serving cell by the hysteresis. -/
def Beats (settings : Settings D) (seen : Observation D) (cellId : UInt16) : Prop :=
  ∃ rsrp, seen.bestRsrpPerCell[cellId]? = some rsrp ∧
    Decibel.lt (Decibel.add seen.servingRsrp settings.rsrpThreshold) rsrp = true

theorem pickTarget_mem {cands : List (UInt16 × D)}
    (picked : pickTarget settings seen effectiveLoad cands = .target cellId) :
    ∃ rsrp, (cellId, rsrp) ∈ cands ∧
      Decibel.lt (Decibel.add seen.servingRsrp settings.rsrpThreshold) rsrp = true := by
  induction cands with
  | nil => cases picked
  | cons cand rest ih =>
    obtain ⟨candidate, rsrp⟩ := cand
    have later : pickTarget settings seen effectiveLoad rest = .target cellId ->
        ∃ rsrp', (cellId, rsrp') ∈ (candidate, rsrp) :: rest ∧
          Decibel.lt (Decibel.add seen.servingRsrp settings.rsrpThreshold) rsrp' = true := by
      intro pickedLater
      obtain ⟨strength, mem, beats⟩ := ih pickedLater
      exact ⟨strength, List.mem_cons_of_mem _ mem, beats⟩
    simp only [pickTarget] at picked
    split at picked
    · exact later picked
    · split at picked
      · exact later picked
      · next beats =>
          split at picked
          · cases picked
          · split at picked
            · split at picked
              · exact later picked
              · cases picked
            · obtain rfl := Choice.target.inj picked
              exact ⟨rsrp, List.mem_cons_self, by simpa using beats⟩

/-- The chosen target beats the serving cell by the hysteresis. -/
theorem chosen_beats {call : Call D}
    (picked : pickTarget settings seen effectiveLoad (candidates call seen) = .target cellId) :
    Beats settings seen cellId := by
  obtain ⟨rsrp, mem, beats⟩ := pickTarget_mem picked
  have listed := List.mem_of_mem_filter ((call.stdSort.perm _ _).mem_iff.mp mem)
  exact ⟨rsrp, TreeMap.mem_toList_iff_getElem?_eq_some.mp listed, beats⟩

/-- How `OranLmNr2NrRsrpHandoverWithCellLoad` decides. -/
def strategy (settings : Settings D) : Strategy D where
  policy := policy settings
  observe := observe
  usable seen := seen.servingCellId ≠ 0 && seen.servingRnti ≠ 0
  choose call seen effectiveLoad :=
    pickTarget settings seen effectiveLoad (candidates call seen)
  book := reserve (policy settings)
  chosen_admitted := pickTarget_admitted
  book_admitted admitted := if_pos admitted

end Ns3.Oran.Handover.CellLoad
