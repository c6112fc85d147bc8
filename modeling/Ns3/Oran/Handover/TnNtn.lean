import Ns3.Oran.Handover.LoadAware

/-!
# Handover between terrestrial and non-terrestrial cells

`OranLmNr2NrRsrpHandoverWithTnNtn`: a terrestrial neighbour first, and a
non-terrestrial one as fallback, on all carriers. Here a cell's own capacity of 0
blocks it, and a cell without a load entry is never a target.
-/

namespace Ns3.Oran.Handover.TnNtn

open Ns3.Semantics.Booking
open Std (TreeMap)

variable {D : Type}

/-- The attributes and maps of `OranLmNr2NrRsrpHandoverWithTnNtn`. -/
structure TnNtnSettings (D : Type) extends Settings D where
  tnMinRsrpDbm : D
  ntnEnterMarginDb : D
  tnReturnMarginDb : D
  cellIsNtnMap : TreeMap UInt16 Bool

/-- `CapacityOk`, on the entry the load map has for the cell. -/
def capacityOk (settings : Settings D) (cellId : UInt16) (entry : Option UInt32) : Bool :=
  match entry with
  | none => false
  | some load =>
    match settings.cellCapacityMap[cellId]? with
    | some cap => if cap = 0 then false else load < cap
    | none => if settings.maxUesPerCell = 0 then true else load < settings.maxUesPerCell

variable {settings : Settings D} {cellId : UInt16}

theorem capacityOk_lt {entry : Option UInt32}
    (room : capacityOk settings cellId entry = true) (limited : 0 < getCellCap settings cellId) :
    entry.getD 0 < getCellCap settings cellId := by
  cases entry with
  | none => cases room
  | some load =>
    cases own : settings.cellCapacityMap[cellId]? with
    | some cap =>
      simp only [capacityOk, getCellCap, own] at room ⊢
      split at room
      · cases room
      · simpa using room
    | none =>
      simp only [capacityOk, getCellCap, own] at room limited ⊢
      split at room
      · next unlimited => simp [unlimited] at limited
      · simpa using room

theorem capacityOk_blocked (blocked : settings.cellCapacityMap[cellId]? = some 0) (entry : Option UInt32) :
    capacityOk settings cellId entry = false := by
  cases entry <;> simp [capacityOk, blocked]

/-- `CapacityOk` as a policy for bookings. -/
def policy (settings : Settings D) : Policy UInt16 where
  admits := capacityOk settings
  capacity := getCellCap settings
  within := capacityOk_lt

/-- `IsNtnCell`. -/
def isNtnCell (settings : TnNtnSettings D) (cellId : UInt16) : Bool :=
  settings.cellIsNtnMap[cellId]?.getD false

variable [Decibel D]

/-- `IsValidRsrp`. -/
def isValidRsrp (rsrp : D) : Bool :=
  Decibel.isfinite rsrp && Decibel.lt Decibel.minus500 rsrp

/-- One measurement: the serving cell is the strongest serving one. -/
def observeMeasured (seen : Observation D) (measured : Measured D) : Observation D :=
  let (rnti, cellId, rsrp, _, isServing, _) := measured
  if !isValidRsrp rsrp then
    seen
  else
    let seen := { seen with bestRsrpPerCell := keepBest seen.bestRsrpPerCell cellId rsrp }
    if isServing && Decibel.lt seen.servingRsrp rsrp then
      { seen with servingRsrp := rsrp, servingCellId := cellId, servingRnti := rnti }
    else
      seen

/-- The measurements of a UE. -/
def observe (measured : List (Measured D)) : Observation D :=
  measured.foldl observeMeasured ⟨Decibel.lowest, 0, 0, ∅⟩

/-- The candidates, strongest first. -/
def candidates (call : Call D) (seen : Observation D) : List (UInt16 × D) :=
  call.stdSort.sort (fun first second => Decibel.lt second.2 first.2) (seen.bestRsrpPerCell.toList.filter fun entry =>
    cellKnown call.gnbInfos entry.1 && isValidRsrp entry.2)

/-- The loop shared by both searches: the first candidate that is `eligible` and
has room and that `accepts` takes. -/
def selectCandidate (settings : Settings D) (effectiveLoad : LoadMap) (eligible : UInt16 -> Bool)
    (accepts : D -> Bool) : List (UInt16 × D) -> Option (UInt16 × D)
  | [] => none
  | (cellId, rsrp) :: rest =>
    if !eligible cellId then
      selectCandidate settings effectiveLoad eligible accepts rest
    else if !capacityOk settings cellId effectiveLoad[cellId]? then
      if settings.tryNextBest then
        selectCandidate settings effectiveLoad eligible accepts rest
      else
        none
    else if accepts rsrp then
      some (cellId, rsrp)
    else
      selectCandidate settings effectiveLoad eligible accepts rest

/-- `SelectPreferredTn`. -/
def selectPreferredTn (settings : TnNtnSettings D) (seen : Observation D)
    (effectiveLoad : LoadMap) (cands : List (UInt16 × D)) : Option (UInt16 × D) :=
  let currentIsNtn := isNtnCell settings seen.servingCellId
  selectCandidate settings.toSettings effectiveLoad
    (fun cellId => !(cellId = seen.servingCellId || isNtnCell settings cellId))
    (fun rsrp =>
      if !currentIsNtn then
        Decibel.lt (Decibel.add seen.servingRsrp settings.rsrpThreshold) rsrp
      else
        Decibel.le settings.tnMinRsrpDbm rsrp &&
          Decibel.lt (Decibel.add seen.servingRsrp settings.tnReturnMarginDb) rsrp)
    cands

/-- `SelectFallbackNtn`. -/
def selectFallbackNtn (settings : TnNtnSettings D) (seen : Observation D)
    (effectiveLoad : LoadMap) (cands : List (UInt16 × D)) : Option (UInt16 × D) :=
  let currentIsNtn := isNtnCell settings seen.servingCellId
  selectCandidate settings.toSettings effectiveLoad
    (fun cellId => !(cellId = seen.servingCellId || !isNtnCell settings cellId))
    (fun rsrp =>
      if !currentIsNtn then
        Decibel.lt seen.servingRsrp settings.tnMinRsrpDbm ||
          Decibel.lt (Decibel.add seen.servingRsrp settings.ntnEnterMarginDb) rsrp
      else
        Decibel.lt (Decibel.add seen.servingRsrp settings.rsrpThreshold) rsrp)
    cands

/-- Both searches and the check of the signal found. -/
def pickTarget (settings : TnNtnSettings D) (seen : Observation D) (effectiveLoad : LoadMap)
    (cands : List (UInt16 × D)) : Choice :=
  match (selectPreferredTn settings seen effectiveLoad cands).or
      (selectFallbackNtn settings seen effectiveLoad cands) with
  | none => .keep
  | some (chosenCell, chosenRsrp) =>
    if Decibel.lt chosenRsrp settings.minAcceptableRsrpDbm then .lowRsrp else .target chosenCell

variable {effectiveLoad : LoadMap} {cands : List (UInt16 × D)}

omit [Decibel D] in
theorem selectCandidate_capacityOk {eligible : UInt16 -> Bool} {accepts : D -> Bool} {found : UInt16 × D}
    (selected : selectCandidate settings effectiveLoad eligible accepts cands = some found) :
    capacityOk settings found.1 effectiveLoad[found.1]? = true := by
  induction cands with
  | nil => cases selected
  | cons cand rest ih =>
    obtain ⟨cellId, rsrp⟩ := cand
    simp only [selectCandidate] at selected
    split at selected
    · exact ih selected
    · split at selected
      · split at selected
        · exact ih selected
        · cases selected
      · next room =>
          split at selected
          · cases selected
            simpa using room
          · exact ih selected

theorem pickTarget_admitted {settings : TnNtnSettings D} {seen : Observation D}
    (picked : pickTarget settings seen effectiveLoad cands = .target cellId) :
    capacityOk settings.toSettings cellId effectiveLoad[cellId]? = true := by
  simp only [pickTarget] at picked
  split at picked
  · cases picked
  · next chosenCell chosenRsrp found =>
      split at picked
      · cases picked
      · obtain rfl := Choice.target.inj picked
        rcases Option.or_eq_some_iff.mp found with preferred | ⟨-, fallback⟩
        · exact selectCandidate_capacityOk preferred
        · exact selectCandidate_capacityOk fallback

/-- The margin a cell of strength `rsrp` has to beat: that of `SelectPreferredTn`
for a terrestrial cell, that of `SelectFallbackNtn` for a non-terrestrial one. -/
def beatsMargin (settings : TnNtnSettings D) (seen : Observation D) (cellId : UInt16) (rsrp : D) :
    Bool :=
  match isNtnCell settings seen.servingCellId, isNtnCell settings cellId with
  | false, false => Decibel.lt (Decibel.add seen.servingRsrp settings.rsrpThreshold) rsrp
  | true, false =>
    Decibel.le settings.tnMinRsrpDbm rsrp && Decibel.lt (Decibel.add seen.servingRsrp settings.tnReturnMarginDb) rsrp
  | false, true =>
    Decibel.lt seen.servingRsrp settings.tnMinRsrpDbm ||
      Decibel.lt (Decibel.add seen.servingRsrp settings.ntnEnterMarginDb) rsrp
  | true, true => Decibel.lt (Decibel.add seen.servingRsrp settings.rsrpThreshold) rsrp

/-- A cell beats the serving cell by its margin. -/
def Beats (settings : TnNtnSettings D) (seen : Observation D) (cellId : UInt16) : Prop :=
  ∃ rsrp, seen.bestRsrpPerCell[cellId]? = some rsrp ∧ beatsMargin settings seen cellId rsrp = true

omit [Decibel D] in
theorem selectCandidate_mem {eligible : UInt16 -> Bool} {accepts : D -> Bool} {found : UInt16 × D}
    (selected : selectCandidate settings effectiveLoad eligible accepts cands = some found) :
    found ∈ cands ∧ eligible found.1 = true ∧ accepts found.2 = true := by
  induction cands with
  | nil => cases selected
  | cons cand rest ih =>
    obtain ⟨cellId, rsrp⟩ := cand
    have later : selectCandidate settings effectiveLoad eligible accepts rest = some found ->
        found ∈ (cellId, rsrp) :: rest ∧ eligible found.1 = true ∧ accepts found.2 = true :=
      fun selectedLater => (ih selectedLater).imp_left (List.mem_cons_of_mem _)
    simp only [selectCandidate] at selected
    split at selected
    · exact later selected
    · next isEligible =>
        split at selected
        · split at selected
          · exact later selected
          · cases selected
        · split at selected
          · next accepted =>
              cases selected
              exact ⟨List.mem_cons_self, by simpa using isEligible, accepted⟩
          · exact later selected

theorem chosen_beats {settings : TnNtnSettings D} {call : Call D} {seen : Observation D}
    (picked : pickTarget settings seen effectiveLoad (candidates call seen) = .target cellId) :
    Beats settings seen cellId := by
  have best : ∀ found, found ∈ candidates call seen -> seen.bestRsrpPerCell[found.1]? = some found.2 := by
    intro found mem
    have listed := List.mem_of_mem_filter ((call.stdSort.perm _ _).mem_iff.mp mem)
    exact TreeMap.mem_toList_iff_getElem?_eq_some.mp listed
  simp only [pickTarget] at picked
  split at picked
  · cases picked
  · next chosenCell chosenRsrp found =>
      split at picked
      · cases picked
      · obtain rfl := Choice.target.inj picked
        refine ⟨chosenRsrp, ?_⟩
        rcases Option.or_eq_some_iff.mp found with preferred | ⟨-, fallback⟩
        · obtain ⟨mem, eligible, accepted⟩ := selectCandidate_mem preferred
          refine ⟨best _ mem, ?_⟩
          cases serving : isNtnCell settings seen.servingCellId <;>
            simp_all [beatsMargin]
        · obtain ⟨mem, eligible, accepted⟩ := selectCandidate_mem fallback
          refine ⟨best _ mem, ?_⟩
          cases serving : isNtnCell settings seen.servingCellId <;>
            simp_all [beatsMargin]

/-- How `OranLmNr2NrRsrpHandoverWithTnNtn` decides. -/
def strategy (settings : TnNtnSettings D) : Strategy D where
  policy := policy settings.toSettings
  observe := observe
  usable seen :=
    !(seen.servingCellId = 0 || seen.servingRnti = 0 || !isValidRsrp seen.servingRsrp)
  choose call seen effectiveLoad :=
    pickTarget settings seen effectiveLoad (candidates call seen)
  book := increment
  chosen_admitted := pickTarget_admitted
  book_admitted _ := rfl

/-- No command targets a cell whose own capacity is 0. -/
theorem blocked_never_target {settings : TnNtnSettings D}
    (blocked : settings.cellCapacityMap[cellId]? = some 0) (call : Call D) (statics : Statics) :
    cellId ∉ (getHandoverCommands settings.toSettings (strategy settings) call
      statics).commands.map Issued.targetCellId :=
  (getHandoverCommands_booked settings.toSettings (strategy settings) call statics).not_mem
    (capacityOk_blocked blocked)

end Ns3.Oran.Handover.TnNtn
