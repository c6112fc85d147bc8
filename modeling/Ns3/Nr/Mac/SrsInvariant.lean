import Ns3.Nr.Mac.SchedulerSrs

/-!
# Who has which offset

The offsets of the UEs and the available ones are together those of the period, each of them once.
-/

namespace Ns3.Nr

open Semantics List SchedulerSrs SrsScheduler

namespace SchedulerSrs

variable {srs next : SchedulerSrs} {ueMap : List UeSrs}

theorem addUe_none (given : srs.availableOffsetValues = []) : srs.addUe = (none, srs) := by
  rw [addUe, given]
  rfl

theorem addUe_some (given : srs.availableOffsetValues ≠ []) : ∃ offset rest,
    srs.availableOffsetValues = rest ++ [offset] ∧
      srs.addUe = (some ⟨srs.periodicity, offset⟩, { srs with availableOffsetValues := rest }) := by
  refine ⟨_, _, (dropLast_append_getLast given).symm, ?_⟩
  rw [addUe, getLast?_eq_some_getLast given]

/-- The entries of the map with what is given to them. -/
structure Reassigned (srs next : SchedulerSrs) (before after : List UeSrs) : Prop where
  periodicity : next.periodicity = srs.periodicity
  rntis : after.map UeSrs.rnti = before.map UeSrs.rnti
  shared : ∀ ue ∈ after, ue.srsPeriodicity = srs.periodicity
  offsets : (after.map UeSrs.srsOffset ++ next.availableOffsetValues).Perm srs.availableOffsetValues

theorem reassignSrsValue_ok (enough : ueMap.length ≤ srs.availableOffsetValues.length) :
    ∃ next after, srs.reassignSrsValue ueMap = .ok (next, after) ∧ Reassigned srs next ueMap after := by
  induction ueMap generalizing srs with
  | nil => exact ⟨srs, [], rfl, rfl, rfl, by simp, List.Perm.refl _⟩
  | cons ue ueMap ih =>
    rw [length_cons] at enough
    have some : srs.availableOffsetValues ≠ [] := ne_nil_of_length_pos (by omega)
    obtain ⟨offset, rest, isList, isGiven⟩ := addUe_some some
    have length : srs.availableOffsetValues.length = rest.length + 1 := by
      rw [isList, length_append, length_singleton]
    obtain ⟨next, after, isReassigned, kept⟩ :=
      @ih { srs with availableOffsetValues := rest } (by dsimp only; omega)
    refine ⟨next, { ue with srsPeriodicity := srs.periodicity, srsOffset := offset } :: after, ?_, kept.periodicity,
      ?_, ?_, ?_⟩
    · rw [reassignSrsValue, isGiven]
      dsimp only
      rw [isReassigned]
      rfl
    · rw [map_cons, map_cons, kept.rntis]
    · rintro other (_ | ⟨_, mem⟩)
      · rfl
      · exact kept.shared other mem
    · rw [map_cons, cons_append, isList]
      apply (kept.offsets.cons offset).trans
      exact (perm_append_singleton offset rest).symm

theorem setStartingPeriodicity_ok {start : Nat} (empty : srs.availableOffsetValues = [])
    (standard : start ∈ standardPeriodicity) :
    srs.setStartingPeriodicity start =
      .ok { periodicity := start, availableOffsetValues := range start, shuffleEvent := true } := by
  rw [setStartingPeriodicity, if_neg (not_not_intro empty), if_neg (not_not_intro standard)]

/-- There is a larger value, except for the last one. -/
theorem larger_periodicity {periodicity : Nat} (standard : periodicity ∈ standardPeriodicity)
    (notLast : periodicity ≠ 2560) : ∃ value,
    (standardPeriodicity.find? fun value => periodicity < value) = some value ∧
      value ∈ standardPeriodicity ∧ periodicity < value := by
  cases found : standardPeriodicity.find? fun value => periodicity < value with
  | none =>
    have last := find?_eq_none.mp found 2560 (by decide)
    have bound : periodicity ≤ 2560 := (by decide : ∀ value ∈ standardPeriodicity, value ≤ 2560) periodicity standard
    simp only [decide_eq_true_eq] at last
    omega
  | some value => exact ⟨value, rfl, mem_of_find?_eq_some found, by simpa using find?_some found⟩

theorem increasePeriodicity_ok (standard : srs.periodicity ∈ standardPeriodicity) (notLast : srs.periodicity ≠ 2560)
    (count : ueMap.length = srs.periodicity + 1) : ∃ start next after,
      srs.increasePeriodicity ueMap = .ok (next, after) ∧ start ∈ standardPeriodicity ∧
        Reassigned { periodicity := start, availableOffsetValues := range start, shuffleEvent := true } next
          ueMap after := by
  obtain ⟨value, isValue, isStandard, larger⟩ := larger_periodicity standard notLast
  obtain ⟨next, after, isReassigned, kept⟩ := @reassignSrsValue_ok
    { periodicity := value, availableOffsetValues := range value, shuffleEvent := true } ueMap (by
      rw [length_range]
      omega)
  refine ⟨value, next, after, ?_, isStandard, kept⟩
  rw [increasePeriodicity]
  dsimp only
  rw [isValue]
  dsimp only
  rw [setStartingPeriodicity_ok rfl isStandard]
  exact isReassigned

end SchedulerSrs

namespace SrsScheduler

structure Assigned (scheduler : SrsScheduler) : Prop where
  standard : scheduler.schedulerSrs.periodicity ∈ standardPeriodicity
  shared : ∀ ue ∈ scheduler.ueMap, ue.srsPeriodicity = scheduler.schedulerSrs.periodicity
  offsets : (scheduler.ueMap.map UeSrs.srsOffset ++ scheduler.schedulerSrs.availableOffsetValues).Perm
    (range scheduler.schedulerSrs.periodicity)
  nonzero : ∀ ue ∈ scheduler.ueMap, ue.rnti ≠ 0
  rntis : (scheduler.ueMap.map UeSrs.rnti).Nodup

variable {scheduler next : SrsScheduler} {rnti : UInt16} {order offsets : List UeSrs} {action : Action}

theorem Assigned.initial (isInitial : Initial scheduler) : Assigned scheduler := by
  obtain ⟨start, srs, srsCtrlSymbols, started, rfl⟩ := isInitial
  have standard : start ∈ standardPeriodicity := by
    by_contra other
    rw [setStartingPeriodicity, if_neg (not_not_intro rfl), if_pos other] at started
    cases started
  rw [setStartingPeriodicity_ok rfl standard] at started
  obtain rfl := Except.ok.inj started
  exact ⟨standard, by simp, List.Perm.refl _, by simp, nodup_nil⟩

theorem Assigned.doCschedUeConfigReq (assigned : Assigned scheduler) (nonzero : rnti ≠ 0)
    (fresh : rnti ∉ scheduler.ueMap.map UeSrs.rnti) (room : scheduler.schedulerSrs.isMaxSrsReached = false)
    (isOrder : order.Perm ({ rnti := rnti } :: scheduler.ueMap)) :
    ∃ next, scheduler.doCschedUeConfigReq rnti order = .ok next ∧ Assigned next := by
  have rntis : (order.map UeSrs.rnti).Perm (rnti :: scheduler.ueMap.map UeSrs.rnti) := isOrder.map UeSrs.rnti
  have distinct : (order.map UeSrs.rnti).Nodup := rntis.nodup_iff.mpr (nodup_cons.mpr ⟨fresh, assigned.rntis⟩)
  have pos : ∀ ue ∈ order, ue.rnti ≠ 0 := by
    intro ue mem
    rcases mem_cons.mp (isOrder.mem_iff.mp mem) with rfl | old
    · exact nonzero
    · exact assigned.nonzero ue old
  by_cases empty : scheduler.schedulerSrs.availableOffsetValues = []
  · have count : order.length = scheduler.schedulerSrs.periodicity + 1 := by
      have lengths := assigned.offsets.length_eq
      rw [empty, append_nil, length_map, length_range] at lengths
      rw [isOrder.length_eq, length_cons, lengths]
    have notLast : scheduler.schedulerSrs.periodicity ≠ 2560 := by
      intro last
      simp [isMaxSrsReached, last, empty] at room
    obtain ⟨start, srs, after, increased, standard, kept⟩ :=
      increasePeriodicity_ok assigned.standard notLast count
    refine ⟨{ scheduler with schedulerSrs := srs, ueMap := after }, ?_, ?_, ?_, ?_, ?_, ?_⟩
    · rw [SrsScheduler.doCschedUeConfigReq, addUe_none empty]
      dsimp only
      rw [increased]
      rfl
    · rw [kept.periodicity]
      exact standard
    · rw [kept.periodicity]
      exact kept.shared
    · rw [kept.periodicity]
      exact kept.offsets
    · intro ue mem
      have isRnti := mem_map_of_mem (f := UeSrs.rnti) mem
      rw [kept.rntis] at isRnti
      obtain ⟨old, isOld, same⟩ := mem_map.mp isRnti
      rw [← same]
      exact pos old isOld
    · rw [kept.rntis]
      exact distinct
  · obtain ⟨offset, rest, isList, isGiven⟩ := addUe_some empty
    have configured : scheduler.doCschedUeConfigReq rnti order = .ok { scheduler with
        schedulerSrs := { scheduler.schedulerSrs with availableOffsetValues := rest }
        ueMap := order.map fun ue => if ue.rnti = rnti then
          { ue with srsPeriodicity := scheduler.schedulerSrs.periodicity, srsOffset := offset } else ue } := by
      rw [SrsScheduler.doCschedUeConfigReq, isGiven]
    refine ⟨_, configured, assigned.standard, ?_, ?_, ?_, ?_⟩
    · intro ue mem
      obtain ⟨old, isOld, rfl⟩ := mem_map.mp mem
      split
      · rfl
      · rename_i other
        rcases mem_cons.mp (isOrder.mem_iff.mp isOld) with rfl | registered
        · exact absurd rfl other
        · exact assigned.shared old registered
    · have kept : ∀ ue ∈ scheduler.ueMap, (if ue.rnti = rnti then
        { ue with srsPeriodicity := scheduler.schedulerSrs.periodicity, srsOffset := offset } else ue) = ue := by
        intro ue mem
        rw [if_neg]
        rintro rfl
        exact fresh (mem_map_of_mem mem)
      have mapped := isOrder.map fun ue => if ue.rnti = rnti then
        { ue with srsPeriodicity := scheduler.schedulerSrs.periodicity, srsOffset := offset } else ue
      rw [map_cons, if_pos rfl, map_congr_left kept, map_id'] at mapped
      have given : (offset :: scheduler.ueMap.map UeSrs.srsOffset ++ rest).Perm
          (scheduler.ueMap.map UeSrs.srsOffset ++ scheduler.schedulerSrs.availableOffsetValues) := by
        rw [isList, ← append_assoc]
        exact (perm_append_singleton _ _).symm
      apply List.Perm.trans ?_ (given.trans assigned.offsets)
      exact (mapped.map UeSrs.srsOffset).append_right rest
    · intro ue mem
      obtain ⟨old, isOld, rfl⟩ := mem_map.mp mem
      split <;> exact pos old isOld
    · have same : (order.map fun ue => if ue.rnti = rnti then
        { ue with srsPeriodicity := scheduler.schedulerSrs.periodicity, srsOffset := offset }
          else ue).map UeSrs.rnti =
          order.map UeSrs.rnti := by
        rw [map_map]
        apply map_congr_left
        intro ue _
        dsimp only [Function.comp]
        split <;> rfl
      dsimp only
      rw [same]
      exact distinct

theorem perm_filter {ue : UeSrs} {ueMap : List UeSrs} (rntis : (ueMap.map UeSrs.rnti).Nodup) (mem : ue ∈ ueMap) :
    ueMap.Perm (ue :: ueMap.filter fun other => other.rnti ≠ ue.rnti) := by
  induction ueMap with
  | nil => cases mem
  | cons first ueMap ih =>
    obtain ⟨notMember, distinct⟩ := nodup_cons.mp rntis
    rcases mem_cons.mp mem with rfl | further
    · have all : (ueMap.filter fun other => other.rnti ≠ ue.rnti) = ueMap := by
        apply filter_eq_self.mpr
        intro other isOther
        simp only [decide_eq_true_eq]
        intro same
        exact notMember (same ▸ mem_map_of_mem isOther)
      rw [filter_cons_of_neg (by simp), all]
    · have other : first.rnti ≠ ue.rnti := by
        intro same
        exact notMember (same ▸ mem_map_of_mem further)
      rw [filter_cons_of_pos (by simpa using other)]
      exact ((ih distinct further).cons first).trans (List.Perm.swap _ _ _)

theorem Assigned.doCschedUeReleaseReq (assigned : Assigned scheduler)
    (released : scheduler.doCschedUeReleaseReq rnti = .ok next) : Assigned next := by
  unfold SrsScheduler.doCschedUeReleaseReq at released
  split at released
  · cases released
  · rename_i ue found
    obtain rfl := Except.ok.inj released
    have isRnti : ue.rnti = rnti := by simpa using find?_some found
    have perm := perm_filter assigned.rntis (mem_of_find?_eq_some found)
    rw [isRnti] at perm
    refine ⟨assigned.standard, ?_, ?_, ?_, ?_⟩
    · exact fun other mem => assigned.shared other (mem_of_mem_filter mem)
    · apply List.Perm.trans ?_ assigned.offsets
      dsimp only [removeUe]
      rw [← append_assoc]
      apply (perm_append_singleton _ _).trans
      exact ((perm.map UeSrs.srsOffset).append_right scheduler.schedulerSrs.availableOffsetValues).symm
    · exact fun other mem => assigned.nonzero other (mem_of_mem_filter mem)
    · exact ((filter_sublist).map UeSrs.rnti).nodup assigned.rntis

theorem Assigned.step (assigned : Assigned scheduler) (moves : step scheduler action = some next) :
    Assigned next := by
  cases action with
  | ueConfig rnti order =>
    simp only [step] at moves
    split at moves
    · cases moves
    · rename_i allowed
      split at moves
      · rename_i isOrder
        simp only [not_or, Bool.not_eq_true] at allowed
        obtain ⟨nonzero, fresh, room⟩ := allowed
        obtain ⟨after, isAfter, kept⟩ := assigned.doCschedUeConfigReq nonzero fresh room isOrder
        rw [isAfter] at moves
        cases moves
        exact kept
      · cases moves
  | ueRelease rnti =>
    simp only [step] at moves
    cases released : scheduler.doCschedUeReleaseReq rnti with
    | error failure =>
      rw [released] at moves
      cases moves
    | ok after =>
      rw [released] at moves
      cases moves
      exact assigned.doCschedUeReleaseReq released
  | shuffle offsets =>
    simp only [step] at moves
    split at moves
    · rename_i pending
      cases moves
      refine ⟨assigned.standard, assigned.shared, ?_, assigned.nonzero, assigned.rntis⟩
      exact (pending.2.append_left _).trans assigned.offsets
    · cases moves
  | srsSlot sym ulSymAvail =>
    simp only [step, scheduleSrsSlot] at moves
    split at moves
    · cases moves
      exact ⟨assigned.standard, assigned.shared, assigned.offsets, assigned.nonzero, assigned.rntis⟩
    · cases moves

theorem Assigned.of_run {trace : List (SrsScheduler × Action)} (run : system.Run trace scheduler) :
    Assigned scheduler :=
  run.invariant_of_guard Assigned (fun _ _ => True) (fun _ => Assigned.initial)
    (fun assigned _ moves => assigned.step moves) fun _ _ => trivial

end SrsScheduler
end Ns3.Nr
