import Ns3.Oran.Handover.TimeToTrigger

/-!
# `TryNextBest` of the module for non-terrestrial cells

The attribute says that without it a UE whose best cell is full keeps its cell. `SelectPreferredTn`
and `SelectFallbackNtn` each stop at the first full cell of their own kind, so a full cell of one
kind does not keep a UE from a cell of the other.
-/

namespace Ns3.Oran.Handover.TnNtn

open Ns3.Semantics.Stopwatch Ns3.Oran.DataRepository List Option
open Std (TreeMap)

variable {D : Type}

/-- The first of a ranking with a property, when all that rank before it are passed by. -/
def RankedFirst {Cand : Type} (property passed : Cand -> Prop) (cands : List Cand) (first : Cand) :
    Prop :=
  ∃ earlier later, cands = earlier ++ first :: later ∧ property first ∧ ∀ cand ∈ earlier, passed cand

namespace RankedFirst

variable {Cand : Type} {property passed otherProperty otherPassed : Cand -> Prop}
  {cands : List Cand} {first second : Cand}

theorem nil_iff : ¬ RankedFirst property passed [] first := by
  rintro ⟨earlier, later, split, -⟩
  cases earlier <;> cases split

theorem cons_iff {cand : Cand} : RankedFirst property passed (cand :: cands) first ↔
    (cand = first ∧ property first) ∨ (passed cand ∧ RankedFirst property passed cands first) := by
  constructor
  · rintro ⟨earlier, later, split, has, before⟩
    cases earlier with
    | nil => exact .inl ⟨(List.cons.inj split).1, has⟩
    | cons head earlier =>
      obtain ⟨rfl, rest⟩ := List.cons.inj split
      obtain ⟨headPassed, before⟩ := forall_mem_cons.mp before
      exact .inr ⟨headPassed, earlier, later, rest, has, before⟩
  · rintro (⟨rfl, has⟩ | ⟨headPassed, earlier, later, rfl, has, before⟩)
    · exact ⟨[], cands, rfl, has, by simp⟩
    · exact ⟨cand :: earlier, later, rfl, has, forall_mem_cons.mpr ⟨headPassed, before⟩⟩

theorem has (ranked : RankedFirst property passed cands first) : property first := by
  obtain ⟨-, -, -, has, -⟩ := ranked
  exact has

theorem congr (same : ∀ cand, property cand ↔ otherProperty cand)
    (samePassed : ∀ cand, passed cand ↔ otherPassed cand) :
    RankedFirst property passed cands first ↔ RankedFirst otherProperty otherPassed cands first := by
  simp only [RankedFirst, same, samePassed]

/-- Of two that rank first in one ranking, one is passed by on the way to the other. -/
theorem compare (one : RankedFirst property passed cands first)
    (two : RankedFirst otherProperty otherPassed cands second) :
    first = second ∨ otherPassed first ∨ passed second := by
  induction cands with
  | nil => exact absurd one nil_iff
  | cons cand rest ih =>
    obtain ⟨rfl, -⟩ | ⟨passedCand, one⟩ := cons_iff.mp one <;>
      obtain ⟨rfl, -⟩ | ⟨otherPassedCand, two⟩ := cons_iff.mp two
    · exact .inl rfl
    · exact .inr (.inl otherPassedCand)
    · exact .inr (.inr passedCand)
    · exact ih one two

end RankedFirst

section Search

variable {settings : Settings D} {load : LoadMap} {eligible : UInt16 -> Bool} {accepts : D -> Bool}
  {cands : List (UInt16 × D)} {found : UInt16 × D}

/-- A cell has no room. -/
def isFull (settings : Settings D) (load : LoadMap) (cand : UInt16 × D) : Bool :=
  !capacityOk settings cand.1 load[cand.1]?

/-- With `TryNextBest`, full cells are passed over. -/
theorem selectCandidate_dropFull (tryNext : settings.tryNextBest = true) :
    selectCandidate settings load eligible accepts cands = selectCandidate settings load eligible accepts
        (cands.filter fun cand => !isFull settings load cand) := by
  induction cands with
  | nil => rfl
  | cons cand rest ih =>
    obtain ⟨cellId, rsrp⟩ := cand
    by_cases room : capacityOk settings cellId load[cellId]? = true
    · rw [filter_cons_of_pos (by simpa [isFull] using room)]
      simp only [selectCandidate, ih]
    · rw [filter_cons_of_neg (by simpa [isFull] using room), ← ih]
      simp [selectCandidate, room, tryNext]

/-- With `TryNextBest`, a cell with room that is eligible and accepted is enough to find one. -/
theorem selectCandidate_isSome (tryNext : settings.tryNextBest = true) {cand : UInt16 × D}
    (mem : cand ∈ cands) (isEligible : eligible cand.1 = true)
    (room : isFull settings load cand = false) (accepted : accepts cand.2 = true) :
    (selectCandidate settings load eligible accepts cands).isSome = true := by
  induction cands with
  | nil => cases mem
  | cons first rest ih =>
    obtain same | inRest := mem_cons.mp mem
    · subst same
      simp_all [selectCandidate, isFull]
    · have later := ih inRest
      simp only [selectCandidate]
      split
      · exact later
      · split
        · exact later
        · split
          · rfl
          · exact later

/-- Without `TryNextBest`, what is found is the first accepted cell, and no eligible cell up to it
is full. -/
theorem selectCandidate_eq_some_iff (keep : settings.tryNextBest = false) :
    selectCandidate settings load eligible accepts cands = some found ↔ RankedFirst
        (fun cand => eligible cand.1 = true ∧ isFull settings load cand = false ∧ accepts cand.2 = true)
        (fun cand => eligible cand.1 = true ->
          isFull settings load cand = false ∧ accepts cand.2 = false) cands found := by
  induction cands with
  | nil => exact iff_of_false (by simp [selectCandidate]) RankedFirst.nil_iff
  | cons cand rest ih =>
    obtain ⟨cellId, rsrp⟩ := cand
    rw [RankedFirst.cons_iff, ← ih]
    simp only [selectCandidate, keep, isFull]
    cases isEligible : eligible cellId with
    | false =>
      constructor
      · exact fun later => .inr ⟨fun absent => by simp at absent, later⟩
      · rintro (⟨rfl, contrary, -⟩ | ⟨-, later⟩)
        · simp [isEligible] at contrary
        · exact later
    | true =>
      cases room : capacityOk settings cellId load[cellId]? with
      | false =>
        refine iff_of_false (by simp) ?_
        rintro (⟨rfl, -, contrary, -⟩ | ⟨contrary, -⟩)
        · simp [room] at contrary
        · simp at contrary
      | true =>
        cases accepted : accepts rsrp with
        | false =>
          constructor
          · exact fun later => .inr ⟨fun _ => by simp, later⟩
          · rintro (⟨rfl, -, -, contrary⟩ | ⟨-, later⟩)
            · simp [accepted] at contrary
            · exact later
        | true =>
          simp only [Bool.not_true, Bool.false_eq_true, if_false, if_true, Option.some.injEq]
          constructor
          · rintro rfl
            exact .inl ⟨rfl, isEligible, by simp [room], accepted⟩
          · rintro (⟨same, -⟩ | ⟨contrary, -⟩)
            · exact same
            · simp at contrary

end Search

variable [Decibel D]

/-- A candidate other than the serving cell beats its margin. -/
def Satisfies (settings : TnNtnSettings D) (seen : Observation D) (cand : UInt16 × D) : Prop :=
  cand.1 ≠ seen.servingCellId ∧ beatsMargin settings seen cand.1 cand.2 = true

/-- The candidate that ranks first of those that beat their margins. -/
def FirstSatisfying (settings : TnNtnSettings D) (seen : Observation D) :
    List (UInt16 × D) -> UInt16 × D -> Prop :=
  RankedFirst (Satisfies settings seen) fun cand => ¬ Satisfies settings seen cand

/-- The candidate that ranks first of those of one kind that beat their margins, if no cell of the
kind up to it is full. -/
def FirstOfKind (settings : TnNtnSettings D) (seen : Observation D) (load : LoadMap)
    (isNtn : Bool) : List (UInt16 × D) -> UInt16 × D -> Prop :=
  RankedFirst (fun cand => isNtnCell settings cand.1 = isNtn ∧ Satisfies settings seen cand ∧
      isFull settings.toSettings load cand = false)
    fun cand => cand.1 ≠ seen.servingCellId -> isNtnCell settings cand.1 = isNtn ->
      isFull settings.toSettings load cand = false ∧ beatsMargin settings seen cand.1 cand.2 = false

section Selection

variable {settings : TnNtnSettings D} {seen : Observation D} {load : LoadMap}
  {cands : List (UInt16 × D)} {found best : UInt16 × D}

section

variable (keep : settings.tryNextBest = false)
include keep

/-- A search among the cells of one kind, by the margin of the kind. -/
theorem selectCandidate_ofKind_iff {eligible : UInt16 -> Bool} {accepts : D -> Bool} {isNtn : Bool}
    (isEligible : ∀ cellId, eligible cellId = true ↔
      cellId ≠ seen.servingCellId ∧ isNtnCell settings cellId = isNtn)
    (isMargin : ∀ cellId rsrp, isNtnCell settings cellId = isNtn ->
      accepts rsrp = beatsMargin settings seen cellId rsrp) :
    selectCandidate settings.toSettings load eligible accepts cands = some found ↔
      FirstOfKind settings seen load isNtn cands found := by
  rw [selectCandidate_eq_some_iff keep]
  apply RankedFirst.congr
  · intro cand
    rw [isEligible]
    constructor
    · rintro ⟨⟨elsewhere, kind⟩, room, accepted⟩
      exact ⟨kind, ⟨elsewhere, isMargin cand.1 cand.2 kind ▸ accepted⟩, room⟩
    · rintro ⟨kind, ⟨elsewhere, beats⟩, room⟩
      exact ⟨⟨elsewhere, kind⟩, room, (isMargin cand.1 cand.2 kind).trans beats⟩
  · intro cand
    rw [isEligible]
    constructor
    · intro passed elsewhere kind
      obtain ⟨room, rejected⟩ := passed ⟨elsewhere, kind⟩
      exact ⟨room, isMargin cand.1 cand.2 kind ▸ rejected⟩
    · rintro passed ⟨elsewhere, kind⟩
      obtain ⟨room, rejected⟩ := passed elsewhere kind
      exact ⟨room, (isMargin cand.1 cand.2 kind).trans rejected⟩

theorem selectPreferredTn_eq_some_iff :
    selectPreferredTn settings seen load cands = some found ↔ FirstOfKind settings seen load false cands found := by
  apply selectCandidate_ofKind_iff keep
  · intro cellId
    simp
  · intro cellId rsrp kind
    cases serving : isNtnCell settings seen.servingCellId <;> simp [beatsMargin, serving, kind]

theorem selectFallbackNtn_eq_some_iff :
    selectFallbackNtn settings seen load cands = some found ↔ FirstOfKind settings seen load true cands found := by
  apply selectCandidate_ofKind_iff keep
  · intro cellId
    simp
  · intro cellId rsrp kind
    cases serving : isNtnCell settings seen.servingCellId <;> simp [beatsMargin, serving, kind]

end

/-- Where the best cell is full, the search of its kind finds nothing. -/
theorem not_firstOfKind (isFirst : FirstSatisfying settings seen cands best)
    (full : isFull settings.toSettings load best = true) :
    ¬ FirstOfKind settings seen load (isNtnCell settings best.1) cands found := by
  intro firstOfKind
  obtain ⟨-, satisfies, room⟩ := firstOfKind.has
  obtain rfl | passed | passed := firstOfKind.compare isFirst
  · rw [full] at room
    cases room
  · exact passed satisfies
  · have fits := (passed isFirst.has.1 rfl).1
    rw [full] at fits
    cases fits

/-- Where the best cell is full, what is found is of the other kind. -/
theorem search_eq_some_iff (keep : settings.tryNextBest = false)
    (isFirst : FirstSatisfying settings seen cands best) (full : isFull settings.toSettings load best = true) :
    (selectPreferredTn settings seen load cands).or (selectFallbackNtn settings seen load cands) = some found ↔
      FirstOfKind settings seen load (!isNtnCell settings best.1) cands found := by
  have nothing (other : UInt16 × D) : ¬ FirstOfKind settings seen load (isNtnCell settings best.1) cands other :=
    not_firstOfKind isFirst full
  cases kind : isNtnCell settings best.1 with
  | false =>
    have none : selectPreferredTn settings seen load cands = none := by
      apply eq_none_iff_forall_ne_some.mpr
      intro other same
      rw [kind] at nothing
      exact nothing other ((selectPreferredTn_eq_some_iff keep).mp same)
    rw [none, none_or, selectFallbackNtn_eq_some_iff keep, Bool.not_false]
  | true =>
    have none : selectFallbackNtn settings seen load cands = none := by
      apply eq_none_iff_forall_ne_some.mpr
      intro other same
      rw [kind] at nothing
      exact nothing other ((selectFallbackNtn_eq_some_iff keep).mp same)
    rw [none, or_none, selectPreferredTn_eq_some_iff keep, Bool.not_true]

theorem pickTarget_eq_target_iff {cellId : UInt16} : pickTarget settings seen load cands = .target cellId ↔
    ∃ rsrp, (selectPreferredTn settings seen load cands).or
        (selectFallbackNtn settings seen load cands) = some (cellId, rsrp) ∧
      Decibel.lt rsrp settings.minAcceptableRsrpDbm = false := by
  rw [pickTarget]
  cases (selectPreferredTn settings seen load cands).or (selectFallbackNtn settings seen load cands) with
  | none => simp
  | some found =>
    obtain ⟨chosenCell, chosenRsrp⟩ := found
    cases weak : Decibel.lt chosenRsrp settings.minAcceptableRsrpDbm with
    | true => simp [weak]
    | false => simp [weak]

/-- With `TryNextBest`, a run decides as if the full cells were not there, and finds a cell if one
with room beats its margin. -/
theorem pickTarget_tryNext (tryNext : settings.tryNextBest = true) : pickTarget settings seen load cands =
      pickTarget settings seen load (cands.filter fun cand => !isFull settings.toSettings load cand) ∧
    ((∃ cand ∈ cands, Satisfies settings seen cand ∧ isFull settings.toSettings load cand = false) ->
      pickTarget settings seen load cands ≠ .keep) := by
  constructor
  · have preferred : selectPreferredTn settings seen load cands =
        selectPreferredTn settings seen load _ := selectCandidate_dropFull tryNext
    have fallback : selectFallbackNtn settings seen load cands =
        selectFallbackNtn settings seen load _ := selectCandidate_dropFull tryNext
    rw [pickTarget, pickTarget, ← preferred, ← fallback]
  · rintro ⟨cand, mem, ⟨elsewhere, beats⟩, room⟩
    have found : ((selectPreferredTn settings seen load cands).or
        (selectFallbackNtn settings seen load cands)).isSome = true := by
      rw [isSome_or, Bool.or_eq_true]
      cases kind : isNtnCell settings cand.1 with
      | false =>
        refine .inl (selectCandidate_isSome tryNext mem ?_ room ?_)
        · simp [elsewhere, kind]
        · cases serving : isNtnCell settings seen.servingCellId <;>
            simpa [beatsMargin, serving, kind] using beats
      | true =>
        refine .inr (selectCandidate_isSome tryNext mem ?_ room ?_)
        · simp [elsewhere, kind]
        · cases serving : isNtnCell settings seen.servingCellId <;>
            simpa [beatsMargin, serving, kind] using beats
    obtain ⟨target, same⟩ := isSome_iff_exists.mp found
    rw [pickTarget, same]
    dsimp only
    split
    · exact Choice.noConfusion
    · exact Choice.noConfusion

end Selection

/-- A run when the turn of the UE after some others comes. -/
def atTurn (settings : TnNtnSettings D) (call : Call D) (statics : Statics) (before : List UeInfo) : Progress :=
  before.foldl (considerUe settings.toSettings (strategy settings) call)
    ⟨prunePending settings.toSettings call.now statics,
      reservedLoad settings.toSettings (strategy settings) call statics, []⟩

/-- The turn of a UE gets as far as looking for a target. -/
structure Searches (settings : TnNtnSettings D) (call : Call D) (progress : Progress)
    (ue : UInt64) : Prop where
  gates : (passGates settings.toSettings call.now progress.statics ue).2 = true
  usable : (strategy settings).usable (observation (strategy settings) call ue) = true
  known : getServingGnbNodeId call.gnbInfos (observation (strategy settings) call ue).servingCellId ≠ 0

/-- The candidates of a UE, as the run sorts them. -/
def candidatesOf (settings : TnNtnSettings D) (call : Call D) (ue : UInt64) : List (UInt16 × D) :=
  candidates call (observation (strategy settings) call ue)

section Ranking

/-- Finite levels are ordered, up to equal ones. -/
class OrderedDecibel (D : Type) [Decibel D] : Prop where
  asymm : ∀ {first second : D}, Decibel.isfinite first = true -> Decibel.isfinite second = true ->
    Decibel.lt first second = true -> Decibel.lt second first = false
  trans : ∀ {first second third : D}, Decibel.isfinite first = true -> Decibel.isfinite second = true ->
    Decibel.isfinite third = true -> Decibel.lt first second = false -> Decibel.lt second third = false ->
    Decibel.lt first third = false

/-- A cell of a known gNB that a UE hears with a valid RSRP. -/
def IsCandidate (call : Call D) (seen : Observation D) (cand : UInt16 × D) : Prop :=
  seen.bestRsrpPerCell[cand.1]? = some cand.2 ∧ cellKnown call.gnbInfos cand.1 = true ∧ isValidRsrp cand.2 = true

/-- A candidate that beats its margin, and no such candidate has a higher RSRP. -/
def Strongest (settings : TnNtnSettings D) (call : Call D) (seen : Observation D) (cand : UInt16 × D) : Prop :=
  Satisfies settings seen cand ∧ ∀ other, IsCandidate call seen other -> Satisfies settings seen other ->
    Decibel.lt cand.2 other.2 = false

/-- The candidate of highest RSRP of those that beat their margins; of several, the one that
`std::sort` puts first. -/
def Best (settings : TnNtnSettings D) (call : Call D) (seen : Observation D) : UInt16 × D -> Prop :=
  RankedFirst (Strongest settings call seen) (fun cand => ¬ Strongest settings call seen cand) (candidates call seen)

variable {settings : TnNtnSettings D} {call : Call D} {seen : Observation D} {best : UInt16 × D}

theorem mem_candidates_iff {cand : UInt16 × D} : cand ∈ candidates call seen ↔ IsCandidate call seen cand := by
  rw [candidates, (call.stdSort.perm _ _).mem_iff, mem_filter, TreeMap.mem_toList_iff_getElem?_eq_some,
    Bool.and_eq_true]
  rfl

theorem IsCandidate.finite {cand : UInt16 × D} (isCandidate : IsCandidate call seen cand) :
    Decibel.isfinite cand.2 = true :=
  (Bool.and_eq_true_iff.mp isCandidate.2.2).1

variable [OrderedDecibel D]

/-- The candidates are sorted by RSRP, the highest first. -/
theorem candidates_pairwise :
    (candidates call seen).Pairwise fun first second => Decibel.lt first.2 second.2 = false := by
  have finite : ∀ entry ∈ seen.bestRsrpPerCell.toList.filter fun entry =>
    cellKnown call.gnbInfos entry.1 && isValidRsrp entry.2, Decibel.isfinite entry.2 = true := by
    intro entry mem
    have valid := (mem_filter.mp mem).2
    simp only [Bool.and_eq_true, isValidRsrp] at valid
    exact valid.2.1
  apply call.stdSort.ordered
  · exact fun first one second two => OrderedDecibel.asymm (finite second two) (finite first one)
  · exact fun first one second two third three =>
      OrderedDecibel.trans (finite first one) (finite second two) (finite third three)

/-- The best candidate is the first in the list to beat its margin. -/
theorem best_iff : Best settings call seen best ↔ FirstSatisfying settings seen (candidates call seen) best := by
  have isCandidate {cand : UInt16 × D} : cand ∈ candidates call seen ↔ IsCandidate call seen cand :=
    mem_candidates_iff
  have sorted : (candidates call seen).Pairwise _ := candidates_pairwise
  constructor
  · rintro ⟨earlier, later, split, strongest, passed⟩
    refine ⟨earlier, later, split, strongest.1, fun cand mem satisfies => passed cand mem ⟨satisfies, ?_⟩⟩
    rw [split] at isCandidate sorted
    have first := (pairwise_append.mp sorted).2.2 cand mem best mem_cons_self
    intro other listed beats
    exact OrderedDecibel.trans (isCandidate.mp (mem_append_left _ mem)).finite
      (isCandidate.mp (mem_append_right _ mem_cons_self)).finite listed.finite first (strongest.2 other listed beats)
  · rintro ⟨earlier, later, split, satisfies, passed⟩
    refine ⟨earlier, later, split, ⟨satisfies, fun other listed beats => ?_⟩, fun cand mem strongest =>
      passed cand mem strongest.1⟩
    rw [split] at isCandidate sorted
    rcases mem_append.mp (isCandidate.mpr listed) with before | after
    · exact absurd beats (passed other before)
    · rcases mem_cons.mp after with rfl | after
      · cases above : Decibel.lt other.2 other.2 with
        | false => rfl
        | true => exact above ▸ OrderedDecibel.asymm listed.finite listed.finite above
      · exact (pairwise_cons.mp (pairwise_append.mp sorted).2.1).1 other after

end Ranking

section Turn

variable {settings : TnNtnSettings D} {call : Call D} {progress : Progress} {ue : UInt64}

theorem choiceFor_eq_target_iff {cellId : UInt16} :
    choiceFor settings.toSettings (strategy settings) call progress ue = some (.target cellId) ↔
      Searches settings call progress ue ∧
        pickTarget settings (observation (strategy settings) call ue) progress.effectiveLoad
          (candidatesOf settings call ue) = .target cellId := by
  rw [choiceFor]
  constructor
  · intro chosen
    obtain ⟨gets, same⟩ := ite_none_right_eq_some.mp chosen
    simp only [Bool.and_eq_true, decide_eq_true_eq] at gets
    exact ⟨⟨gets.1.1, gets.1.2, gets.2⟩, some.inj same⟩
  · rintro ⟨⟨gates, usable, known⟩, same⟩
    rw [if_pos (by simp [gates, usable, known])]
    exact congrArg some same

/-- The stopwatch of the UE fires when the turn chooses a target that was chosen for long enough. -/
theorem fires_iff (reading : Reading UInt16 Int) : (click reading (lookAt settings.toSettings call
      (sightingOf settings.toSettings (strategy settings) call progress ue))).2 = true ↔
    ∃ cellId, choiceFor settings.toSettings (strategy settings) call progress ue = some (.target cellId) ∧
      settings.timeToTrigger ≤ call.now - since reading cellId call.now := by
  rw [sightingOf]
  cases chosen : choiceFor settings.toSettings (strategy settings) call progress ue with
  | none => simp [click, lookAt]
  | some choice =>
    cases choice with
    | keep => simp [click, lookAt]
    | lowRsrp => simp [click, lookAt]
    | target cellId =>
      by_cases long : settings.timeToTrigger ≤ call.now - since reading cellId call.now
      · simp [click, lookAt, long]
      · simp [click, lookAt, long]

theorem sightingIn_append (settings : TnNtnSettings D) (call : Call D) {before : List UeInfo}
    (rest : List UeInfo) (absent : ue ∉ before.map UeInfo.nodeId) (progress : Progress) :
    sightingIn settings.toSettings (strategy settings) call ue progress (before ++ rest) =
        sightingIn settings.toSettings (strategy settings) call ue
          (before.foldl (considerUe settings.toSettings (strategy settings) call) progress) rest ∧
      (before.foldl (considerUe settings.toSettings (strategy settings) call)
          progress).statics.tttState[ue]? = progress.statics.tttState[ue]? := by
  induction before generalizing progress with
  | nil => exact ⟨rfl, rfl⟩
  | cons ueInfo before ih =>
    rw [map_cons, mem_cons, not_or] at absent
    obtain ⟨ne, absent⟩ := absent
    obtain ⟨shown, kept⟩ := ih absent (considerUe settings.toSettings (strategy settings) call progress ueInfo)
    have turn := considerUe_clicked settings.toSettings (strategy settings) call progress ueInfo
    rw [cons_append, sightingIn, if_neg (Ne.symm ne)]
    exact ⟨shown, kept.trans (turn.others ue ne)⟩

/-- A run issues a command for a UE exactly when the turn of the UE chooses a target that was
chosen for long enough. -/
theorem commanded_iff {statics : Statics} {before after : List UeInfo} {ueInfo : UeInfo}
    (listed : call.ueInfos = before ++ ueInfo :: after) (distinct : EachUeOnce call) :
    (∃ command ∈ (getHandoverCommands settings.toSettings (strategy settings) call
        statics).commands, command.ue = ueInfo.nodeId) ↔
      ∃ cellId, choiceFor settings.toSettings (strategy settings) call
          (atTurn settings call statics before) ueInfo.nodeId = some (.target cellId) ∧
        settings.timeToTrigger ≤ call.now -
          since (atTurn settings call statics before).statics.tttState[ueInfo.nodeId]? cellId
            call.now := by
  have absent : ueInfo.nodeId ∉ before.map UeInfo.nodeId := by
    rw [EachUeOnce, listed, map_append] at distinct
    intro mem
    exact (nodup_append.mp distinct).2.2 _ mem _ mem_cons_self rfl
  obtain ⟨-, issued, appended, sound, complete⟩ :=
    foldl_considerUe_ran settings.toSettings (strategy settings) call distinct
      ⟨prunePending settings.toSettings call.now statics,
        reservedLoad settings.toSettings (strategy settings) call statics, []⟩
  obtain ⟨shown, kept⟩ := sightingIn_append settings call (ueInfo :: after) absent
    ⟨prunePending settings.toSettings call.now statics,
      reservedLoad settings.toSettings (strategy settings) call statics, []⟩
  rw [← listed, sightingIn, if_pos rfl] at shown
  rw [getHandoverCommands, appended, ← fires_iff, atTurn, ← shown, kept]
  constructor
  · rintro ⟨command, mem, same⟩
    rw [← same]
    exact (sound command mem).2.1
  · exact complete ueInfo.nodeId

end Turn

/-- The turn of a UE honours `TryNextBest`: without it, a UE whose best candidate is full gets no
command in the run; with it, the decision is made as if the full cells were not there, and is to
look at a cell if one with room beats its margin. -/
structure HonoursTryNextBest (settings : TnNtnSettings D) (call : Call D) (statics : Statics)
    (before : List UeInfo) (ue : UInt64) : Prop where
  keeps : settings.tryNextBest = false -> ∀ best, Best settings call (observation (strategy settings) call ue) best ->
    isFull settings.toSettings (atTurn settings call statics before).effectiveLoad best = true ->
    ∀ command ∈ (getHandoverCommands settings.toSettings (strategy settings) call statics).commands, command.ue ≠ ue
  skips : settings.tryNextBest = true -> pickTarget settings (observation (strategy settings) call ue)
        (atTurn settings call statics before).effectiveLoad (candidatesOf settings call ue) =
      pickTarget settings (observation (strategy settings) call ue)
        (atTurn settings call statics before).effectiveLoad
        ((candidatesOf settings call ue).filter fun cand =>
          !isFull settings.toSettings (atTurn settings call statics before).effectiveLoad cand) ∧
    ((∃ cand ∈ candidatesOf settings call ue, Satisfies settings (observation (strategy settings) call ue) cand ∧
          isFull settings.toSettings (atTurn settings call statics before).effectiveLoad cand = false) ->
      pickTarget settings (observation (strategy settings) call ue)
        (atTurn settings call statics before).effectiveLoad (candidatesOf settings call ue) ≠ .keep)

/-- The best candidate is full, and the first of the cells of the other kind that beats its margin
has room, comes before any full one, is strong enough and has been chosen for long enough. -/
structure Diverts (settings : TnNtnSettings D) (call : Call D) (progress : Progress) (ue : UInt64)
    (best instead : UInt16 × D) : Prop where
  keep : settings.tryNextBest = false
  searches : Searches settings call progress ue
  isBest : Best settings call (observation (strategy settings) call ue) best
  full : isFull settings.toSettings progress.effectiveLoad best = true
  otherKind : FirstOfKind settings (observation (strategy settings) call ue)
    progress.effectiveLoad (!isNtnCell settings best.1) (candidatesOf settings call ue) instead
  strong : Decibel.lt instead.2 settings.minAcceptableRsrpDbm = false
  long : settings.timeToTrigger ≤ call.now - since progress.statics.tttState[ue]? instead.1 call.now

/-- A UE's turn honours `TryNextBest` exactly when the UE is not diverted to a cell of the other
kind. -/
theorem honoursTryNextBest_iff [OrderedDecibel D] (settings : TnNtnSettings D) (call : Call D) (statics : Statics)
    {before after : List UeInfo} {ueInfo : UeInfo}
    (listed : call.ueInfos = before ++ ueInfo :: after) (distinct : EachUeOnce call) :
    HonoursTryNextBest settings call statics before ueInfo.nodeId ↔
      ∀ best instead, ¬ Diverts settings call (atTurn settings call statics before) ueInfo.nodeId best instead := by
  constructor
  · rintro ⟨keeps, -⟩ best ⟨cellId, rsrp⟩ ⟨keep, searches, isBest, full, otherKind, strong, long⟩
    have picked :=
      pickTarget_eq_target_iff.mpr
        ⟨rsrp, (search_eq_some_iff keep (best_iff.mp isBest) full).mpr otherKind, strong⟩
    obtain ⟨command, issued, same⟩ := (commanded_iff listed distinct).mpr
      ⟨cellId, choiceFor_eq_target_iff.mpr ⟨searches, picked⟩, long⟩
    exact keeps keep best isBest full command issued same
  · intro undiverted
    refine ⟨fun keep best isBest full command issued same => ?_, pickTarget_tryNext⟩
    obtain ⟨cellId, chosen, long⟩ := (commanded_iff listed distinct).mp ⟨command, issued, same⟩
    obtain ⟨searches, picked⟩ := choiceFor_eq_target_iff.mp chosen
    obtain ⟨rsrp, found, strong⟩ := pickTarget_eq_target_iff.mp picked
    exact undiverted best (cellId, rsrp) ⟨keep, searches, isBest, full,
      (search_eq_some_iff keep (best_iff.mp isBest) full).mp found, strong, long⟩

instance : OrderedDecibel Int where
  asymm _ _ less := decide_eq_false (Int.lt_asymm (of_decide_eq_true less))
  trans _ _ _ one two := decide_eq_false (Int.not_lt.mpr (Int.le_trans (Int.not_lt.mp (of_decide_eq_false two))
    (Int.not_lt.mp (of_decide_eq_false one))))

/-- Cell 2 is terrestrial and blocked, cell 3 is non-terrestrial, and `TryNextBest` is off. -/
def blockedNeighbour : TnNtnSettings Int :=
  { oneUePerCell with
    tryNextBest := false
    cellCapacityMap := (∅ : TreeMap UInt16 UInt32).insert 2 0
    tnMinRsrpDbm := -110
    ntnEnterMarginDb := 3
    tnReturnMarginDb := 5
    cellIsNtnMap := (∅ : TreeMap UInt16 Bool).insert 3 true }

/-- A UE of cell 1 that hears cell 2 best and cell 3 next. -/
def hearsBoth : Call Int :=
  { bothLeave with
    data :=
      { (opened : Repository Int) with
        noderegistration := [⟨1, true, 0⟩]
        uersrprsrq := fun _ =>
          [⟨1, 4, 1, 1, -90, -12, true, 0⟩, ⟨1, 4, 1, 2, -70, -10, false, 0⟩, ⟨1, 4, 1, 3, -80, -10, false, 0⟩] }
    ueInfos := [⟨1, 1, 1⟩]
    gnbInfos := [⟨10, 1⟩, ⟨20, 2⟩, ⟨30, 3⟩] }

theorem honoursTryNextBest_iff_hearsBoth : HonoursTryNextBest blockedNeighbour hearsBoth ⟨∅, ∅, ∅, ∅⟩ [] 1 ↔
    ∀ best instead, ¬ Diverts blockedNeighbour hearsBoth
      (atTurn blockedNeighbour hearsBoth ⟨∅, ∅, ∅, ∅⟩ []) 1 best instead :=
  honoursTryNextBest_iff blockedNeighbour hearsBoth ⟨∅, ∅, ∅, ∅⟩
    (show hearsBoth.ueInfos = [] ++ ⟨1, 1, 1⟩ :: [] from rfl) (nodup_singleton _)

/-- The best candidate, cell 2, is full, and the UE is sent to cell 3. -/
theorem sent_to_fallback : ¬ HonoursTryNextBest blockedNeighbour hearsBoth ⟨∅, ∅, ∅, ∅⟩ [] 1 := by
  intro honours
  have isBest : Best blockedNeighbour hearsBoth (observation (strategy blockedNeighbour) hearsBoth 1) (2, -70) :=
    best_iff.mpr ⟨[], [(3, -80), (1, -90)], by decide, ⟨by decide, by decide⟩, by simp⟩
  have issued : ⟨5, 1, 10, 1, 3⟩ ∈ (getHandoverCommands blockedNeighbour.toSettings
      (strategy blockedNeighbour) hearsBoth ⟨∅, ∅, ∅, ∅⟩).commands := by
    decide
  exact honours.keeps rfl (2, -70) isBest (by decide) _ issued rfl

end Ns3.Oran.Handover.TnNtn
