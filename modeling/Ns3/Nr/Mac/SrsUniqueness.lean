import Ns3.Nr.Mac.SrsInvariant
import Ns3.Semantics.Period
import Mathlib.Data.List.Nodup

/-!
# One SRS in each period

The offsets are unique in every run. That each UE is scheduled once in a period of SRS slots fails
where the counter of the slots wraps: its range is no multiple of most periods.
-/

namespace Ns3.Nr.SrsScheduler

open Semantics List Option

structure UniqueOffsets (scheduler : SrsScheduler) : Prop where
  samePeriodicity : ∀ ue ∈ scheduler.ueMap, ue.srsPeriodicity = scheduler.schedulerSrs.periodicity
  distinct : (scheduler.ueMap.map UeSrs.srsOffset).Nodup
  below : ∀ ue ∈ scheduler.ueMap, ue.srsOffset < ue.srsPeriodicity
  availableOnce : scheduler.schedulerSrs.availableOffsetValues.Nodup
  available : ∀ offset, offset ∈ scheduler.schedulerSrs.availableOffsetValues ↔
    offset < scheduler.schedulerSrs.periodicity ∧ ∀ ue ∈ scheduler.ueMap, ue.srsOffset ≠ offset
  registers : ∀ rnti ueMap, rnti ≠ 0 -> rnti ∉ scheduler.ueMap.map UeSrs.rnti ->
    scheduler.schedulerSrs.isMaxSrsReached = false -> ueMap.Perm ({ rnti := rnti } :: scheduler.ueMap) ->
      ∃ next, scheduler.doCschedUeConfigReq rnti ueMap = .ok next

def Action.registersOrReleases : Action -> Bool
  | .ueConfig _ _ | .ueRelease _ => true
  | .shuffle _ | .srsSlot _ _ => false

def Action.isSrsSlot : Action -> Bool
  | .srsSlot _ _ => true
  | _ => false

/-- What a step allocates. -/
def allocated (scheduler : SrsScheduler) : Action -> Option SrsAllocation
  | .srsSlot sym ulSymAvail => (scheduler.scheduleSrsSlot sym ulSymAvail).toOption.bind Prod.snd
  | _ => none

/-- The number of slots of a window in which an SRS of a UE is scheduled, by one DCI or more. -/
def allocations (scheduler : SrsScheduler) (window : List Action) (rnti : UInt16) : Nat :=
  (system.steps scheduler window).countP fun entry =>
    (allocated entry.1 entry.2).any fun srs => srs.rnti = rnti ∧ srs.symStart ≠ []

/-- Of the slots of a period, the one with an offset comes either before the counter wraps or after
it. -/
def ReachedOnce (srsSlotCounter : UInt32) (periodicity offset : Nat) : Prop :=
  (offset + (periodicity - (srsSlotCounter.toNat + 1) % periodicity)) % periodicity <
    4294967295 - srsSlotCounter.toNat ↔
    ¬offset < periodicity - (4294967295 - srsSlotCounter.toNat)

instance (srsSlotCounter : UInt32) (periodicity offset : Nat) :
    Decidable (ReachedOnce srsSlotCounter periodicity offset) :=
  inferInstanceAs (Decidable (_ ↔ _))

variable {scheduler next final : SrsScheduler} {action : Action} {window : List Action} {ue : UeSrs} {offset : Nat}

theorem Assigned.uniqueOffsets (assigned : Assigned scheduler) : UniqueOffsets scheduler := by
  have nodup := assigned.offsets.nodup_iff.mpr nodup_range
  obtain ⟨distinct, availableOnce, apart⟩ := nodup_append.mp nodup
  have mem := fun offset => (assigned.offsets.mem_iff (a := offset)).trans mem_range
  refine ⟨assigned.shared, distinct, fun ue member => ?_, availableOnce, fun offset => ⟨fun isAvailable => ?_, ?_⟩, ?_⟩
  · rw [assigned.shared ue member]
    exact (mem _).mp (mem_append_left _ (mem_map_of_mem member))
  · refine ⟨(mem offset).mp (mem_append_right _ isAvailable), fun ue member => ?_⟩
    exact apart _ (mem_map_of_mem member) _ isAvailable
  · rintro ⟨below, unused⟩
    rcases mem_append.mp ((mem offset).mpr below) with used | isAvailable
    · obtain ⟨ue, member, same⟩ := mem_map.mp used
      exact absurd same (unused ue member)
    · exact isAvailable
  · intro rnti ueMap nonzero fresh room isOrder
    obtain ⟨next, configured, -⟩ := assigned.doCschedUeConfigReq nonzero fresh room isOrder
    exact ⟨next, configured⟩

/-- The last one of the UEs with an offset is the only one. -/
theorem foldl_offset {ueMap : List UeSrs} {rnti : UInt16} (distinct : (ueMap.map UeSrs.srsOffset).Nodup) :
    ueMap.foldl (fun rnti ue => if ue.srsOffset = offset then ue.rnti else rnti) rnti =
      ((ueMap.find? fun ue => ue.srsOffset = offset).map UeSrs.rnti).getD rnti := by
  induction ueMap generalizing rnti with
  | nil => rfl
  | cons first ueMap ih =>
    obtain ⟨alone, distinct⟩ := nodup_cons.mp distinct
    rw [foldl_cons, ih distinct]
    by_cases same : first.srsOffset = offset
    · have none : (ueMap.find? fun ue => ue.srsOffset = offset) = none := by
        apply find?_eq_none.mpr
        intro ue mem isSame
        apply alone
        rw [same, ← of_decide_eq_true isSame]
        exact mem_map_of_mem mem
      rw [find?_cons_of_pos (by simpa using same), none, if_pos same]
      rfl
    · rw [find?_cons_of_neg (by simpa using same), if_neg same]

theorem Assigned.srsRnti_eq_iff (assigned : Assigned scheduler) (mem : ue ∈ scheduler.ueMap) :
    scheduler.srsRnti = ue.rnti ↔
      scheduler.srsSlotCounter.toNat % scheduler.schedulerSrs.periodicity = ue.srsOffset := by
  have distinct := assigned.uniqueOffsets.distinct
  unfold srsRnti
  split
  · rename_i empty
    rw [empty] at mem
    cases mem
  · rename_i first others isMap
    have isFirst : first ∈ scheduler.ueMap := by
      rw [isMap]
      exact mem_cons_self
    rw [assigned.shared first isFirst, foldl_offset distinct]
    constructor
    · intro same
      cases found : scheduler.ueMap.find? fun ue =>
        ue.srsOffset = scheduler.srsSlotCounter.toNat % scheduler.schedulerSrs.periodicity with
      | none =>
        rw [found] at same
        exact absurd same.symm (assigned.nonzero ue mem)
      | some other =>
        rw [found] at same
        have isOther := mem_of_find?_eq_some found
        have isOffset : other.srsOffset = scheduler.srsSlotCounter.toNat % scheduler.schedulerSrs.periodicity := by
          simpa using find?_some found
        rw [← inj_on_of_nodup_map assigned.rntis isOther mem same]
        exact isOffset.symm
    · intro same
      have found : (scheduler.ueMap.find? fun ue =>
        ue.srsOffset = scheduler.srsSlotCounter.toNat % scheduler.schedulerSrs.periodicity) = some ue := by
        cases found : scheduler.ueMap.find? fun ue =>
          ue.srsOffset = scheduler.srsSlotCounter.toNat % scheduler.schedulerSrs.periodicity with
        | none =>
          have other := find?_eq_none.mp found ue mem
          exact absurd (decide_eq_true same.symm) other
        | some other =>
          have isOffset : other.srsOffset = ue.srsOffset := by
            rw [← same]
            simpa using find?_some found
          rw [inj_on_of_nodup_map distinct (mem_of_find?_eq_some found) mem isOffset]
      rw [found]
      rfl

/-- There is a DCI for each symbol. -/
theorem srsSymbols_ne_nil {sym : UInt8} {count : Nat} : srsSymbols sym count ≠ [] ↔ count ≠ 0 := by
  cases count <;> simp [srsSymbols]

/-- A slot schedules the SRS of the UE with the offset of the next counter, if an SRS has symbols. -/
theorem Assigned.allocated_srsSlot (assigned : Assigned scheduler) (mem : ue ∈ scheduler.ueMap) {sym ulSymAvail : UInt8}
    (moves : SrsScheduler.step scheduler (.srsSlot sym ulSymAvail) = some next) :
    next = { scheduler with srsSlotCounter := scheduler.srsSlotCounter + 1 } ∧
      ((scheduler.allocated (.srsSlot sym ulSymAvail)).any (fun srs => srs.rnti = ue.rnti ∧ srs.symStart ≠ []) =
        decide (scheduler.srsCtrlSymbols.toNat ≠ 0 ∧
          (scheduler.srsSlotCounter.toNat + 1) % 4294967296 % scheduler.schedulerSrs.periodicity =
          ue.srsOffset)) := by
  have kept : Assigned { scheduler with srsSlotCounter := scheduler.srsSlotCounter + 1 } :=
    ⟨assigned.standard, assigned.shared, assigned.offsets, assigned.nonzero, assigned.rntis⟩
  simp only [SrsScheduler.step, allocated, scheduleSrsSlot] at moves ⊢
  split at moves
  · rename_i enough
    cases moves
    refine ⟨rfl, ?_⟩
    rw [if_pos enough]
    have isCounter : (scheduler.srsSlotCounter.toNat + 1) % 4294967296 = (scheduler.srsSlotCounter + 1).toNat :=
      (UInt32.toNat_add scheduler.srsSlotCounter 1).symm
    simp only [isCounter, ← kept.srsRnti_eq_iff mem, Except.toOption, bind_some, doScheduleSrs]
    split
    · rename_i zero
      rw [zero]
      exact (decide_eq_false fun both => (assigned.nonzero ue mem).symm both.2).symm
    · exact decide_eq_decide.mpr (and_comm.trans (and_congr_left' srsSymbols_ne_nil))
  · cases moves

/-- The slots of a window have consecutive counters. -/
theorem Assigned.allocations_eq (assigned : Assigned scheduler) (mem : ue ∈ scheduler.ueMap)
    (quiet : ∀ action ∈ window, action.registersOrReleases = false)
    (executed : system.exec scheduler window = some final) :
    scheduler.allocations window ue.rnti =
      (range' (scheduler.srsSlotCounter.toNat + 1) (window.countP Action.isSrsSlot)).countP fun n =>
        scheduler.srsCtrlSymbols.toNat ≠ 0 ∧ n % 4294967296 % scheduler.schedulerSrs.periodicity = ue.srsOffset := by
  suffices counted : ∀ n, n % 4294967296 = scheduler.srsSlotCounter.toNat -> scheduler.allocations window ue.rnti =
      (range' (n + 1) (window.countP Action.isSrsSlot)).countP fun n =>
        scheduler.srsCtrlSymbols.toNat ≠ 0 ∧ n % 4294967296 % scheduler.schedulerSrs.periodicity = ue.srsOffset from
    counted _ (Nat.mod_eq_of_lt (UInt32.toNat_lt _))
  intro n isCounter
  induction window generalizing scheduler n with
  | nil => rfl
  | cons action window ih =>
    obtain ⟨next, moves, further⟩ := bind_eq_some_iff.mp executed
    have kept := assigned.step moves
    have rest := @ih next kept
    have steps : system.steps scheduler (action :: window) = (scheduler, action) :: system.steps next window := by
      rw [System.steps, moves]
    cases action with
    | ueConfig rnti ueMap => exact absurd (quiet _ mem_cons_self) (by simp [Action.registersOrReleases])
    | ueRelease rnti => exact absurd (quiet _ mem_cons_self) (by simp [Action.registersOrReleases])
    | shuffle offsets =>
      have same : next.ueMap = scheduler.ueMap ∧ next.srsSlotCounter = scheduler.srsSlotCounter ∧
          next.srsCtrlSymbols = scheduler.srsCtrlSymbols ∧
            next.schedulerSrs.periodicity = scheduler.schedulerSrs.periodicity := by
        change SrsScheduler.step scheduler (.shuffle offsets) = some next at moves
        simp only [SrsScheduler.step] at moves
        split at moves
        · cases moves
          exact ⟨rfl, rfl, rfl, rfl⟩
        · cases moves
      obtain ⟨sameMap, sameCounter, sameSymbols, samePeriodicity⟩ := same
      rw [sameMap, sameCounter, sameSymbols, samePeriodicity] at rest
      rw [allocations, steps, countP_cons_of_neg (by simp [allocated]), countP_cons_of_neg (by simp [Action.isSrsSlot])]
      exact rest mem (fun action later => quiet action (mem_cons_of_mem _ later)) further n isCounter
    | srsSlot sym ulSymAvail =>
      obtain ⟨rfl, isAllocated⟩ := assigned.allocated_srsSlot mem moves
      have isNext : (n + 1) % 4294967296 = (scheduler.srsSlotCounter + 1).toNat := by
        rw [UInt32.toNat_add, ← isCounter]
        change (n + 1) % 4294967296 = (n % 4294967296 + 1) % 4294967296
        omega
      have tail := rest mem (fun action later => quiet action (mem_cons_of_mem _ later)) further (n + 1) isNext
      rw [allocations, steps, countP_cons_of_pos (l := window) (by rfl), range'_succ, countP_cons, countP_cons]
      dsimp only
      rw [isAllocated, show (n + 1) % 4294967296 = (scheduler.srsSlotCounter.toNat + 1) % 4294967296 by omega]
      exact congrArg₂ (· + ·) tail rfl

theorem count_period {srsSlotCounter : UInt32} {periodicity : Nat} (small : offset < periodicity)
    (bound : periodicity < 4294967296) :
    (range' (srsSlotCounter.toNat + 1) periodicity).countP (fun n => n % 4294967296 % periodicity = offset) = 1 ↔
      ReachedOnce srsSlotCounter periodicity offset := by
  have range := UInt32.toNat_lt srsSlotCounter
  -- The counters before the wrap, and those from it on.
  obtain ⟨before, isBefore⟩ : ∃ before, before = min periodicity (4294967295 - srsSlotCounter.toNat) := ⟨_, rfl⟩
  have parts : range' (srsSlotCounter.toNat + 1) periodicity = range' (srsSlotCounter.toNat + 1) before ++
        (range' 0 (periodicity - before)).map (srsSlotCounter.toNat + 1 + before + ·) := by
    rw [map_add_range', Nat.add_zero (srsSlotCounter.toNat + 1 + before), range'_append_1]
    congr 1
    omega
  have early : ∀ n ∈ range' (srsSlotCounter.toNat + 1) before,
      (n % 4294967296 % periodicity = offset ↔ n % periodicity = offset) := by
    intro n mem
    have bounds := mem_range'_1.mp mem
    rw [Nat.mod_eq_of_lt (by omega : n < 4294967296)]
  have late : ∀ n ∈ range' 0 (periodicity - before),
      ((srsSlotCounter.toNat + 1 + before + n) % 4294967296 % periodicity = offset ↔ n % periodicity = offset) := by
    intro n mem
    have bounds := mem_range'_1.mp mem
    rw [show (srsSlotCounter.toNat + 1 + before + n) % 4294967296 = n by omega]
  have countEarly : (range' (srsSlotCounter.toNat + 1) before).countP
      (fun n => n % 4294967296 % periodicity = offset) = _ :=
    (countP_congr fun n mem => by simpa using early n mem).trans
      (count_residue small (by omega : before ≤ periodicity))
  have countLate : (range' 0 (periodicity - before)).countP
      ((fun n => n % 4294967296 % periodicity = offset) ∘ (srsSlotCounter.toNat + 1 + before + ·)) = _ :=
    (countP_congr fun n mem => by simpa using late n mem).trans
      (count_residue small (by omega : periodicity - before ≤ periodicity))
  have fromZero : (offset + (periodicity - 0 % periodicity)) % periodicity = offset := by
    rw [Nat.zero_mod, Nat.sub_zero, Nat.add_mod_right, Nat.mod_eq_of_lt small]
  have dist := Nat.mod_lt (offset + (periodicity - (srsSlotCounter.toNat + 1) % periodicity))
    (by omega : periodicity > 0)
  rw [fromZero] at countLate
  rw [parts, countP_append, countP_map, countEarly, countLate, ReachedOnce, isBefore]
  split <;> split <;> omega

theorem standard_bounds {periodicity : Nat} (standard : periodicity ∈ standardPeriodicity) :
    0 < periodicity ∧ periodicity < 4294967296 :=
  (by decide : ∀ value ∈ standardPeriodicity, 0 < value ∧ value < 4294967296) periodicity standard

/-- In every run the offsets are unique, and in a period of SRS slots exactly those UEs are
scheduled once whose slot comes once although the counter wraps, if an SRS has symbols. -/
theorem unique_srs_offsets {trace : List (SrsScheduler × Action)} (run : system.Run trace scheduler) :
    UniqueOffsets scheduler ∧ ∀ window final, system.exec scheduler window = some final ->
      (∀ action ∈ window, action.registersOrReleases = false) ->
      window.countP Action.isSrsSlot = scheduler.schedulerSrs.periodicity ->
        ∀ ue ∈ scheduler.ueMap, (scheduler.allocations window ue.rnti = 1 ↔
          scheduler.srsCtrlSymbols.toNat ≠ 0 ∧
            ReachedOnce scheduler.srsSlotCounter scheduler.schedulerSrs.periodicity ue.srsOffset) := by
  have assigned := Assigned.of_run run
  have unique := assigned.uniqueOffsets
  refine ⟨unique, fun window final executed quiet whole ue member => ?_⟩
  have small := unique.below ue member
  rw [unique.samePeriodicity ue member] at small
  rw [assigned.allocations_eq member quiet executed, whole]
  by_cases symbols : scheduler.srsCtrlSymbols.toNat = 0
  · simp [symbols]
  · simp only [Ne, symbols, not_false_eq_true, true_and]
    exact count_period small (standard_bounds assigned.standard).2

def slot : Action :=
  .srsSlot 13 12

def twoUes : List Action :=
  [.ueConfig 7 [{ rnti := 7 }], .shuffle [1, 0, 2], .ueConfig 3 [{ rnti := 3 }, ⟨7, 4, 3⟩]]

def twoUesScheduler : SrsScheduler :=
  (system.exec { schedulerSrs := ⟨4, [0, 1, 2, 3], true⟩ } twoUes).get (by decide +kernel)

theorem unique_srs_offsets_two : UniqueOffsets twoUesScheduler ∧
    ∀ ue ∈ twoUesScheduler.ueMap, twoUesScheduler.allocations [slot, slot, slot, slot] ue.rnti = 1 := by
  have isInitial : system.Initial { schedulerSrs := ⟨4, [0, 1, 2, 3], true⟩ } := ⟨4, _, 1, rfl, rfl⟩
  have run : system.Run _ twoUesScheduler := System.run_of_exec isInitial (some_get _).symm
  obtain ⟨unique, once⟩ := unique_srs_offsets run
  have executed : (system.exec twoUesScheduler [slot, slot, slot, slot]).isSome = true := by decide +kernel
  obtain ⟨final, isFinal⟩ := isSome_iff_exists.mp executed
  refine ⟨unique, fun ue member => ?_⟩
  apply (once _ final isFinal (by decide +kernel) (by decide +kernel) ue member).mpr
  revert ue
  decide +kernel

theorem reachable_counter (reachable : system.Reachable scheduler)
    (enough : scheduler.srsCtrlSymbols ≤ 12) (count : Nat) :
    system.Reachable { scheduler with srsSlotCounter := scheduler.srsSlotCounter + UInt32.ofNat count } := by
  induction count with
  | zero => simpa using reachable
  | succ count ih =>
    have isNext : system.step { scheduler with srsSlotCounter := scheduler.srsSlotCounter + UInt32.ofNat count } slot =
        some { scheduler with srsSlotCounter := scheduler.srsSlotCounter + UInt32.ofNat (count + 1) } := by
      change SrsScheduler.step _ slot = _
      simp only [slot, SrsScheduler.step, scheduleSrsSlot]
      rw [if_pos enough, UInt32.ofNat_add, ← UInt32.add_assoc]
      rfl
    exact ih.step isNext

/-- One UE with the last offset of the default period, just before the counter wraps. -/
def oneUe : SrsScheduler where
  schedulerSrs := ⟨80, List.range 79, true⟩
  ueMap := [⟨1, 80, 79⟩]
  srsSlotCounter := 4294967294

/-- In a period of slots the UE gets no SRS. -/
theorem srs_not_scheduled : system.Reachable oneUe ∧ ∃ window final, system.exec oneUe window = some final ∧
    (∀ action ∈ window, action.registersOrReleases = false) ∧ window.countP Action.isSrsSlot = 80 ∧
      ∃ ue ∈ oneUe.ueMap, oneUe.allocations window ue.rnti = 0 := by
  have reachable : system.Reachable oneUe := by
    have isInitial : system.Initial { schedulerSrs := ⟨80, List.range 80, true⟩ } := ⟨80, _, 1, rfl, rfl⟩
    have registered : system.exec { schedulerSrs := ⟨80, List.range 80, true⟩ } [.ueConfig 1 [{ rnti := 1 }]] =
        some { oneUe with srsSlotCounter := 0 } := by decide +kernel
    exact reachable_counter (System.reachable_of_exec isInitial _ registered) (by decide) 4294967294
  refine ⟨reachable, replicate 80 slot, _, (some_get (by decide +kernel)).symm, ?_, ?_, _, mem_singleton_self _, ?_⟩
  · intro action member
    rw [eq_of_mem_replicate member]
    rfl
  · decide +kernel
  · decide +kernel

end Ns3.Nr.SrsScheduler
