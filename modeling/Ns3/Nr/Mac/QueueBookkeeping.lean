import Ns3.Nr.Mac.LogicalChannel

/-!
# The bookkeeping of the queues

Data are forgotten where an opportunity is smaller than the overhead that is subtracted from it, and
where the stored channel of an uplink group is released before the others.
-/

namespace Ns3.Nr

open Semantics List Option Function ChannelScheduler ChannelUe

namespace LogicalChannel

variable {lc : LogicalChannel} {size : UInt32} {type : Link}

/-- An assignment takes no more from the queues than it has, and subtracts no more than there is. -/
def KeepsData (lc : LogicalChannel) (size : UInt32) (type : Link) : Prop :=
  lc.total ≤ (lc.assignedData size type).1.total + size.toNat ∧
    ∀ subtraction ∈ (lc.assignedData size type).2, subtraction.2 ≤ subtraction.1

/-- New data are sent although the opportunity is smaller than the overhead. -/
def Overdraws (lc : LogicalChannel) (size : UInt32) (type : Link) : Prop :=
  lc.sendsStatus size = false ∧ lc.sendsRetransmission size = false ∧ 0 < lc.rlcTransmissionQueueSize ∧
    size < lc.rlcOverhead type

theorem le_minimumQueue (type : Link) (queue : UInt32) : queue ≤ minimumQueue type queue := by
  unfold minimumQueue
  cases type <;> dsimp only <;> split
  · rename_i small
    exact UInt32.le_of_lt small.2
  · exact UInt32.le_refl _
  · rename_i small
    exact UInt32.le_of_lt small.2
  · exact UInt32.le_refl _

theorem assignTransmission_keeps (enough : lc.rlcOverhead type ≤ size) :
    lc.total ≤ (lc.assignTransmission size type).1.total + size.toNat ∧
      ∀ subtraction ∈ (lc.assignTransmission size type).2, subtraction.2 ≤ subtraction.1 := by
  have isAvailable : (size - lc.rlcOverhead type).toNat = size.toNat - (lc.rlcOverhead type).toNat :=
    UInt32.toNat_sub_of_le _ _ enough
  unfold assignTransmission
  dsimp only
  split
  · rename_i whole
    have bound := UInt32.le_iff_toNat_le.mp whole
    refine ⟨?_, ?_⟩
    · dsimp only [total]
      omega
    · rintro subtraction (_ | ⟨_, ⟨⟩⟩)
      exact enough
  · rename_i part
    have less := UInt32.not_le.mp part
    have left := UInt32.le_iff_toNat_le.mp
      (le_minimumQueue type (lc.rlcTransmissionQueueSize - (size - lc.rlcOverhead type)))
    rw [UInt32.toNat_sub_of_le _ _ (UInt32.le_of_lt less)] at left
    refine ⟨?_, ?_⟩
    · dsimp only [total]
      omega
    · rintro subtraction (_ | ⟨_, _ | ⟨_, ⟨⟩⟩⟩)
      · exact enough
      · exact UInt32.le_of_lt less

theorem keepsData_iff : lc.KeepsData size type ↔ ¬lc.Overdraws size type := by
  unfold KeepsData Overdraws assignedData
  cases status : lc.sendsStatus size with
  | true =>
    simp only [if_true, Bool.true_eq_false, false_and, not_false_eq_true, iff_true, not_mem_nil, false_implies,
      implies_true, and_true]
    have bound := UInt32.le_iff_toNat_le.mp (of_decide_eq_true (Bool.and_eq_true_iff.mp status).2)
    rw [UInt16.toNat_toUInt32] at bound
    dsimp only [total]
    omega
  | false =>
    cases retransmission : lc.sendsRetransmission size with
    | true =>
      simp only [Bool.false_eq_true, if_false, if_true, Bool.true_eq_false, false_and, and_false, not_false_eq_true,
        iff_true, not_mem_nil, false_implies, implies_true, and_true]
      have bound := UInt32.le_iff_toNat_le.mp (of_decide_eq_true (Bool.and_eq_true_iff.mp retransmission).2)
      dsimp only [total]
      omega
    | false =>
      simp only [true_and]
      by_cases some : 0 < lc.rlcTransmissionQueueSize
      · simp only [some, true_and]
        constructor
        · rintro ⟨-, subtractions⟩ less
          have first : (size, lc.rlcOverhead type) ∈ (lc.assignTransmission size type).2 := by
            unfold assignTransmission
            dsimp only
            split <;> exact mem_cons_self
          exact absurd (subtractions _ first) (UInt32.not_le.mpr less)
        · intro notLess
          exact assignTransmission_keeps (UInt32.not_lt.mp notLess)
      · simp only [some, false_and, not_false_eq_true, iff_true]
        exact ⟨Nat.le_add_right _ _, fun subtraction mem => absurd mem not_mem_nil⟩

end LogicalChannel

namespace ChannelUe

variable {ue next : ChannelUe} {configured : List (UInt8 × UInt8)} {lcConfig : LogicalChannelConfig}
  {configs : List LogicalChannelConfig} {lcIds : List UInt8} {lcId id : UInt8} {group : ChannelGroup}

/-- An uplink group is present exactly if a channel is configured in it that has not been released. -/
def GroupsPresent (ue : ChannelUe) (configured : List (UInt8 × UInt8)) : Prop :=
  ∀ id, (ue.ulLCG id).isSome ↔ ∃ lcId, (id, lcId) ∈ configured

/-- An uplink group holds one of the channels that are configured in it. -/
def HoldsFirst (ue : ChannelUe) (configured : List (UInt8 × UInt8)) : Prop :=
  ∀ id group, ue.ulLCG id = some group -> ∃ lc, group.lcMap = [lc] ∧ (id, lc.id) ∈ configured

/-- Whenever the stored channel of a group is released, so are all channels that are configured in
it. -/
def ReleasesAll (ue : ChannelUe) (configured : List (UInt8 × UInt8)) (lcIds : List UInt8) : Prop :=
  ∀ id group lc, ue.ulLCG id = some group -> lc ∈ group.lcMap -> lc.id ∈ lcIds ->
    ∀ lcId, (id, lcId) ∈ configured -> lcId ∈ lcIds

theorem congr_groups (present : GroupsPresent ue configured) (holds : HoldsFirst ue configured)
    (same : ∀ id, (next.ulLCG id).map (fun group => group.lcMap.map LogicalChannel.id) =
      (ue.ulLCG id).map fun group => group.lcMap.map LogicalChannel.id) :
    GroupsPresent next configured ∧ HoldsFirst next configured := by
  refine ⟨fun id => ?_, fun id group isGroup => ?_⟩
  · rw [← present id]
    have isSome := congrArg Option.isSome (same id)
    rw [isSome_map, isSome_map] at isSome
    rw [isSome]
  · have channels := same id
    rw [isGroup] at channels
    cases old : ue.ulLCG id with
    | none =>
      rw [old] at channels
      cases channels
    | some former =>
      rw [old] at channels
      obtain ⟨lc, isLc, mem⟩ := holds id former old
      have ids := some.inj channels
      dsimp only at ids
      rw [isLc] at ids
      obtain ⟨first, isFirst, isId⟩ := map_eq_singleton_iff.mp ids
      exact ⟨first, isFirst, by rwa [isId]⟩

theorem configUl_spec (present : GroupsPresent ue configured) (holds : HoldsFirst ue configured)
    (isNext : ue.configUl lcConfig = some next) :
    GroupsPresent next (configured ++ [(lcConfig.logicalChannelGroup, lcConfig.logicalChannelIdentity)]) ∧
      HoldsFirst next (configured ++ [(lcConfig.logicalChannelGroup, lcConfig.logicalChannelIdentity)]) := by
  have created : ∃ lc, next.ulLCG = update ue.ulLCG lcConfig.logicalChannelGroup (some ⟨[lc]⟩) ∧
      (lcConfig.logicalChannelGroup, lc.id) ∈
        configured ++ [(lcConfig.logicalChannelGroup, lcConfig.logicalChannelIdentity)] := by
    unfold configUl at isNext
    cases old : ue.ulLCG lcConfig.logicalChannelGroup with
    | none =>
      rw [old] at isNext
      cases isNext
      exact ⟨_, rfl, mem_append_right _ (mem_singleton_self _)⟩
    | some group =>
      obtain ⟨lc, isLc, mem⟩ := holds _ group old
      have notEmpty : ¬group.numOfLC = 0 := by
        rw [ChannelGroup.numOfLC, isLc]
        simp
      rw [old] at isNext
      dsimp only [getD_some] at isNext
      rw [if_neg notEmpty] at isNext
      cases isNext
      have isGroup : group = ⟨[lc]⟩ := by rw [← isLc]
      exact ⟨lc, by rw [isGroup], mem_append_left _ mem⟩
  obtain ⟨lc, isUpdate, mem⟩ := created
  refine ⟨fun id => ?_, fun id group isGroup => ?_⟩
  · rw [isUpdate]
    by_cases same : id = lcConfig.logicalChannelGroup
    · subst same
      rw [update_self]
      exact iff_of_true rfl ⟨_, mem⟩
    · rw [update_of_ne same, present id]
      simp [same]
  · rw [isUpdate] at isGroup
    by_cases same : id = lcConfig.logicalChannelGroup
    · subst same
      rw [update_self] at isGroup
      cases isGroup
      exact ⟨lc, rfl, mem⟩
    · rw [update_of_ne same] at isGroup
      obtain ⟨first, isFirst, isMember⟩ := holds id group isGroup
      exact ⟨first, isFirst, mem_append_left _ isMember⟩

theorem configDl_ulLCG (isNext : ue.configDl lcConfig = some next) : next.ulLCG = ue.ulLCG := by
  obtain ⟨group, -, rfl⟩ := map_eq_some_iff.mp isNext
  rfl

theorem config_spec (present : GroupsPresent ue configured) (holds : HoldsFirst ue configured)
    (isNext : ue.config lcConfig = some next) :
    GroupsPresent next (configured ++ configuredUl [lcConfig]) ∧
      HoldsFirst next (configured ++ configuredUl [lcConfig]) := by
  obtain ⟨middle, isMiddle, isLast⟩ := bind_eq_some_iff.mp isNext
  have same : middle.ulLCG = ue.ulLCG := by
    split at isMiddle
    · exact configDl_ulLCG isMiddle
    · rw [some.inj isMiddle]
  have middlePresent : GroupsPresent middle configured := fun id => by
    rw [same]
    exact present id
  have middleHolds : HoldsFirst middle configured := fun id group => by
    rw [same]
    exact holds id group
  unfold configuredUl
  by_cases isUl : lcConfig.isUl = true
  · rw [if_pos isUl] at isLast
    rw [filter_cons_of_pos isUl]
    exact configUl_spec middlePresent middleHolds isLast
  · rw [if_neg isUl] at isLast
    cases isLast
    rw [filter_cons_of_neg isUl, filter_nil, map_nil, append_nil]
    exact ⟨middlePresent, middleHolds⟩

theorem configs_spec (present : GroupsPresent ue configured) (holds : HoldsFirst ue configured)
    (isNext : configs.foldlM config ue = some next) :
    GroupsPresent next (configured ++ configuredUl configs) ∧
      HoldsFirst next (configured ++ configuredUl configs) := by
  induction configs generalizing ue configured with
  | nil =>
    cases isNext
    simpa [configuredUl] using ⟨present, holds⟩
  | cons first configs ih =>
    obtain ⟨middle, isMiddle, isLast⟩ := bind_eq_some_iff.mp isNext
    obtain ⟨middlePresent, middleHolds⟩ := config_spec present holds isMiddle
    have further := ih middlePresent middleHolds isLast
    have parts : configuredUl (first :: configs) = configuredUl [first] ++ configuredUl configs := by
      unfold configuredUl
      rw [← map_append, ← filter_append, singleton_append]
    rwa [parts, ← append_assoc]

/-- A group goes when its stored channel is released. -/
theorem releases_ulLCG (holds : HoldsFirst ue configured) :
    (∀ id group, (lcIds.foldl releaseLC ue).ulLCG id = some group ↔
      ue.ulLCG id = some group ∧ ∀ lc ∈ group.lcMap, lc.id ∉ lcIds) := by
  intro id group
  induction lcIds generalizing ue with
  | nil => simp
  | cons first lcIds ih =>
    have released : ∀ id group, (ue.releaseLC first).ulLCG id = some group ↔
        ue.ulLCG id = some group ∧ ∀ lc ∈ group.lcMap, lc.id ≠ first := by
      intro id group
      change (ue.ulLCG id).bind (releaseFrom first) = some group ↔ _
      cases old : ue.ulLCG id with
      | none => simp
      | some former =>
        obtain ⟨lc, isLc, -⟩ := holds id former old
        have isFormer : former = ⟨[lc]⟩ := by rw [← isLc]
        rw [bind_some, releaseFrom, ChannelGroup.releaseLC, isLc]
        by_cases same : lc.id = first
        · have gone : [lc].filter (fun lc => lc.id ≠ first) = [] := by simp [same]
          rw [gone]
          refine iff_of_false (by simp) ?_
          rintro ⟨isGroup, others⟩
          cases isGroup
          exact others lc (by rw [isLc]; exact mem_singleton_self lc) same
        · have stays : [lc].filter (fun lc => lc.id ≠ first) = [lc] := by simp [same]
          rw [stays, if_neg (cons_ne_nil _ _), ← isFormer]
          constructor
          · intro isGroup
            cases isGroup
            refine ⟨rfl, fun other mem => ?_⟩
            rw [isLc] at mem
            rwa [mem_singleton.mp mem]
          · exact And.left
    have holdsNext : HoldsFirst (ue.releaseLC first) configured := fun id group isGroup =>
      holds id group ((released id group).mp isGroup).1
    rw [foldl_cons, ih holdsNext, released, and_assoc]
    refine and_congr_right fun _ => ?_
    constructor
    · rintro ⟨notFirst, others⟩ lc mem isReleased
      rcases mem_cons.mp isReleased with same | later
      · exact notFirst lc mem same
      · exact others lc mem later
    · intro none
      exact ⟨fun lc mem same => none lc mem (same ▸ mem_cons_self),
        fun lc mem later => none lc mem (mem_cons_of_mem _ later)⟩

theorem releases_spec (present : GroupsPresent ue configured) (holds : HoldsFirst ue configured) :
    (GroupsPresent (lcIds.foldl releaseLC ue) (configured.filter fun channel => channel.2 ∉ lcIds) ↔
      ReleasesAll ue configured lcIds) ∧
    HoldsFirst (lcIds.foldl releaseLC ue) (configured.filter fun channel => channel.2 ∉ lcIds) := by
  have after := @releases_ulLCG ue configured lcIds holds
  have mem : ∀ id lcId, (id, lcId) ∈ configured.filter (fun channel => channel.2 ∉ lcIds) ↔
      (id, lcId) ∈ configured ∧ lcId ∉ lcIds := by
    intro id lcId
    rw [mem_filter, decide_eq_true_eq]
  refine ⟨⟨fun still id group lc isGroup isLc isReleased lcId isConfigured => ?_, fun releases id => ?_⟩, ?_⟩
  · by_contra other
    obtain ⟨left, isLeft⟩ := isSome_iff_exists.mp ((still id).mpr ⟨lcId, (mem id lcId).mpr ⟨isConfigured, other⟩⟩)
    obtain ⟨isOld, none⟩ := (after id left).mp isLeft
    cases isGroup.symm.trans isOld
    exact none lc isLc isReleased
  · constructor
    · intro isSome
      obtain ⟨group, isGroup⟩ := isSome_iff_exists.mp isSome
      obtain ⟨isOld, none⟩ := (after id group).mp isGroup
      obtain ⟨lc, isLc, isConfigured⟩ := holds id group isOld
      exact ⟨lc.id, (mem id lc.id).mpr ⟨isConfigured, none lc (by rw [isLc]; exact mem_singleton_self lc)⟩⟩
    · rintro ⟨lcId, member⟩
      obtain ⟨isConfigured, stays⟩ := (mem id lcId).mp member
      obtain ⟨group, isGroup⟩ := isSome_iff_exists.mp ((present id).mpr ⟨lcId, isConfigured⟩)
      apply isSome_iff_exists.mpr
      refine ⟨group, (after id group).mpr ⟨isGroup, fun lc isLc isReleased => ?_⟩⟩
      exact stays (releases id group lc isGroup isLc isReleased lcId isConfigured)
  · intro id group isGroup
    obtain ⟨isOld, none⟩ := (after id group).mp isGroup
    obtain ⟨lc, isLc, isConfigured⟩ := holds id group isOld
    exact ⟨lc, isLc, (mem id lc.id).mpr ⟨isConfigured, none lc (by rw [isLc]; exact mem_singleton_self lc)⟩⟩

theorem map_setUl (isGroup : ue.ulLCG id = some group) {changed : ChannelGroup}
    (same : changed.lcMap.map LogicalChannel.id = group.lcMap.map LogicalChannel.id) (other : UInt8) :
    (update ue.ulLCG id (some changed) other).map (fun group => group.lcMap.map LogicalChannel.id) =
      (ue.ulLCG other).map fun group => group.lcMap.map LogicalChannel.id := by
  by_cases here : other = id
  · subst here
    rw [update_self, isGroup, map_some, map_some, same]
  · rw [update_of_ne here]

theorem bsrOfGroup_spec {bsrId : UInt8} (isNext : ue.bsrOfGroup id bsrId = some next) (other : UInt8) :
    (next.ulLCG other).map (fun group => group.lcMap.map LogicalChannel.id) =
      (ue.ulLCG other).map fun group => group.lcMap.map LogicalChannel.id := by
  unfold bsrOfGroup at isNext
  split at isNext
  · rw [some.inj isNext]
  · rename_i group isGroup
    obtain ⟨changed, isChanged, rfl⟩ := map_eq_some_iff.mp isNext
    apply map_setUl isGroup
    unfold ChannelGroup.updateQueueSize at isChanged
    split at isChanged
    · cases isChanged
    · cases isChanged
      rw [List.map_map]
      rfl

theorem bsrReceivedFromUe_spec {bufferStatus : Fin 4 -> UInt8} (isNext : ue.bsrReceivedFromUe bufferStatus = some next)
    (other : UInt8) :
    (next.ulLCG other).map (fun group => group.lcMap.map LogicalChannel.id) =
      (ue.ulLCG other).map fun group => group.lcMap.map LogicalChannel.id := by
  obtain ⟨first, isFirst, rest⟩ := bind_eq_some_iff.mp isNext
  obtain ⟨second, isSecond, rest⟩ := bind_eq_some_iff.mp rest
  obtain ⟨third, isThird, isLast⟩ := bind_eq_some_iff.mp rest
  rw [bsrOfGroup_spec isLast, bsrOfGroup_spec isThird, bsrOfGroup_spec isSecond, bsrOfGroup_spec isFirst]

theorem assignedData_ids {lcg changed : ChannelGroup} {size : UInt32} {type : Link}
    {subtractions : List (UInt32 × UInt32)}
    (assigned : lcg.assignedData lcId size type = some (changed, subtractions)) :
    changed.lcMap.map LogicalChannel.id = lcg.lcMap.map LogicalChannel.id := by
  obtain ⟨found, -, isResult⟩ := map_eq_some_iff.mp assigned
  obtain ⟨rfl, -⟩ := Prod.mk.inj isResult
  rw [List.map_map]
  apply map_congr_left
  intro lc _
  dsimp only [comp]
  split
  · unfold LogicalChannel.assignedData LogicalChannel.assignTransmission
    dsimp only
    repeat' split
    all_goals rfl
  · rfl

end ChannelUe

namespace ChannelScheduler

variable {scheduler next : ChannelScheduler} {action : Action} {trace : List (ChannelScheduler × Action)}

/-- Each UE has the uplink groups that it should have. -/
def GroupsPresent (scheduler : ChannelScheduler) : Prop :=
  ∀ rnti ue, scheduler.ueMap rnti = some ue -> ue.GroupsPresent (scheduler.configured rnti)

def HoldsFirst (scheduler : ChannelScheduler) : Prop :=
  ∀ rnti ue, scheduler.ueMap rnti = some ue -> ue.HoldsFirst (scheduler.configured rnti)

/-- The channel that data are assigned to. -/
def assignee (scheduler : ChannelScheduler) : Action -> Option (LogicalChannel × UInt32 × Link)
  | .assignedData rnti type lcg lcId size =>
    (scheduler.ueMap rnti).bind fun ue => (ue.groups type lcg).bind fun group =>
      (group.lcMap.find? fun lc => lc.id = lcId).map fun lc => (lc, size, type)
  | _ => none

/-- A step takes no more from a queue than it assigns, and no subtraction wraps. -/
def KeepsData (scheduler : ChannelScheduler) (action : Action) : Prop :=
  ∀ assigned ∈ scheduler.assignee action, assigned.1.KeepsData assigned.2.1 assigned.2.2

def Overdraws (scheduler : ChannelScheduler) (action : Action) : Prop :=
  ∃ assigned ∈ scheduler.assignee action, assigned.1.Overdraws assigned.2.1 assigned.2.2

/-- A release of the stored channel of a group releases the others as well. -/
def ReleasesAll (scheduler : ChannelScheduler) : Action -> Prop
  | .lcRelease rnti lcIds => ∀ ue, scheduler.ueMap rnti = some ue -> ue.ReleasesAll (scheduler.configured rnti) lcIds
  | _ => True

theorem keepsData_iff (scheduler : ChannelScheduler) (action : Action) :
    scheduler.KeepsData action ↔ ¬scheduler.Overdraws action := by
  unfold KeepsData Overdraws
  simp only [not_exists, not_and, LogicalChannel.keepsData_iff]

theorem ueStep_spec {ue after : ChannelUe} {configured further : List (UInt8 × UInt8)}
    (present : ue.GroupsPresent configured) (holds : ue.HoldsFirst configured)
    (isNext : ueStep ue configured action = some (after, further)) :
    (after.GroupsPresent further ↔ ∀ rnti lcIds, action = .lcRelease rnti lcIds -> ue.ReleasesAll configured lcIds) ∧
      after.HoldsFirst further := by
  have both : ∀ {further}, (after.GroupsPresent further ∧ after.HoldsFirst further) ->
      (∀ rnti lcIds, action ≠ .lcRelease rnti lcIds) ->
      (after.GroupsPresent further ↔ ∀ rnti lcIds, action = .lcRelease rnti lcIds -> ue.ReleasesAll configured lcIds) ∧
        after.HoldsFirst further := fun kept other =>
    ⟨iff_of_true kept.1 fun rnti lcIds same => absurd same (other rnti lcIds), kept.2⟩
  cases action with
  | lcConfig rnti configs =>
    obtain ⟨result, isResult, same⟩ := map_eq_some_iff.mp isNext
    obtain ⟨rfl, rfl⟩ := Prod.mk.inj same
    exact both (configs_spec present holds isResult) (by simp)
  | lcRelease rnti lcIds =>
    obtain ⟨rfl, rfl⟩ := Prod.mk.inj (some.inj isNext)
    obtain ⟨equivalent, kept⟩ := @ChannelUe.releases_spec ue configured lcIds present holds
    refine ⟨equivalent.trans ⟨fun releases other others same => ?_, fun releases => releases rnti lcIds rfl⟩, kept⟩
    obtain ⟨rfl, rfl⟩ := Action.lcRelease.inj same
    exact releases
  | dlRlcBuffer rnti lcg params =>
    obtain ⟨group, isGroup, rest⟩ := bind_eq_some_iff.mp isNext
    obtain ⟨changed, isChanged, same⟩ := map_eq_some_iff.mp rest
    obtain ⟨rfl, rfl⟩ := Prod.mk.inj same
    exact both ⟨present, holds⟩ (by simp)
  | bsr rnti bufferStatus =>
    obtain ⟨result, isResult, same⟩ := map_eq_some_iff.mp isNext
    obtain ⟨rfl, rfl⟩ := Prod.mk.inj same
    exact both (congr_groups present holds (bsrReceivedFromUe_spec isResult)) (by simp)
  | assignedData rnti type lcg lcId size =>
    obtain ⟨group, isGroup, rest⟩ := bind_eq_some_iff.mp isNext
    obtain ⟨⟨changed, subtractions⟩, isChanged, same⟩ := map_eq_some_iff.mp rest
    obtain ⟨rfl, rfl⟩ := Prod.mk.inj same
    cases type with
    | dl => exact both ⟨present, holds⟩ (by simp)
    | ul =>
      have ids := map_setUl isGroup (assignedData_ids isChanged)
      exact both (congr_groups present holds ids) (by simp)

theorem step_spec (holds : scheduler.HoldsFirst) (present : scheduler.GroupsPresent)
    (moves : step scheduler action = some next) :
    (next.GroupsPresent ↔ scheduler.ReleasesAll action) ∧ (next.GroupsPresent -> next.HoldsFirst) := by
  obtain ⟨ue, isUe, rest⟩ := bind_eq_some_iff.mp moves
  obtain ⟨⟨after, further⟩, isNext, rfl⟩ := map_eq_some_iff.mp rest
  obtain ⟨equivalent, kept⟩ := ueStep_spec (present action.rnti ue isUe) (holds action.rnti ue isUe) isNext
  have isGuard : scheduler.ReleasesAll action ↔
      ∀ rnti lcIds, action = .lcRelease rnti lcIds -> ue.ReleasesAll (scheduler.configured action.rnti) lcIds := by
    cases action with
    | lcRelease rnti lcIds =>
      constructor
      · intro releases other others same
        obtain ⟨rfl, rfl⟩ := Action.lcRelease.inj same
        exact releases ue isUe
      · intro releases other isOther
        cases isUe.symm.trans isOther
        exact releases rnti lcIds rfl
    | _ => exact iff_of_true trivial fun rnti lcIds same => by cases same
  refine ⟨?_, fun _ rnti other isOther => ?_⟩
  · rw [isGuard, ← equivalent]
    constructor
    · intro all
      have here := all action.rnti after (update_self _ _ _)
      dsimp only at here
      rwa [update_self] at here
    · intro here rnti other isOther
      dsimp only at isOther ⊢
      by_cases same : rnti = action.rnti
      · subst same
        rw [update_self] at isOther ⊢
        cases isOther
        exact here
      · rw [update_of_ne same] at isOther ⊢
        exact present rnti other isOther
  · dsimp only at isOther ⊢
    by_cases same : rnti = action.rnti
    · subst same
      rw [update_self] at isOther ⊢
      cases isOther
      exact kept
    · rw [update_of_ne same] at isOther ⊢
      exact holds rnti other isOther

/-- A run forgets no data and no uplink group exactly if no step overdraws, and none releases the
stored channel of a group alone. -/
theorem forgets_nothing_iff (run : system.Run trace scheduler) :
    ((∀ entry ∈ trace, KeepsData entry.1 entry.2) ∧ (∀ entry ∈ trace, GroupsPresent entry.1) ∧
      scheduler.GroupsPresent) ↔
      ∀ entry ∈ trace, ¬Overdraws entry.1 entry.2 ∧ ReleasesAll entry.1 entry.2 := by
  have groups := run.always_iff HoldsFirst GroupsPresent (fun _ _ => True) ReleasesAll (fun state isInitial => by
    obtain ⟨empty, none⟩ := isInitial
    refine ⟨fun rnti ue isUe id group isGroup => ?_, fun rnti ue isUe id => ?_⟩
    · rw [empty rnti ue isUe] at isGroup
      cases isGroup
    · rw [empty rnti ue isUe, none]
      simp)
    (fun holds present _ transition => step_spec holds present transition) fun _ _ => trivial
  rw [groups]
  constructor
  · rintro ⟨keeps, releases⟩ entry member
    exact ⟨(keepsData_iff _ _).mp (keeps entry member), releases entry member⟩
  · intro all
    exact ⟨fun entry member => (keepsData_iff _ _).mpr (all entry member).1, fun entry member => (all entry member).2⟩

def oneUe : ChannelScheduler where
  ueMap rnti := if rnti = 1 then some {} else none

theorem oneUe_initial : system.Initial oneUe := by
  refine ⟨fun rnti ue isUe => ?_, rfl⟩
  dsimp only [oneUe] at isUe
  split at isUe
  · exact (some.inj isUe).symm
  · cases isUe

def twoChannels : ChannelScheduler :=
  (step oneUe (.lcConfig 1 [⟨3, 1, .both⟩, ⟨4, 1, .ul⟩])).get (by decide +kernel)

theorem twoChannels_run : system.Run [(oneUe, .lcConfig 1 [⟨3, 1, .both⟩, ⟨4, 1, .ul⟩])] twoChannels :=
  .step (.initial oneUe_initial) (some_get (by decide +kernel)).symm

def bothReleased : ChannelScheduler :=
  (step twoChannels (.lcRelease 1 [3, 4])).get (by decide +kernel)

theorem forgets_nothing_iff_both_released : bothReleased.GroupsPresent := by
  have released : system.step twoChannels (.lcRelease 1 [3, 4]) = some bothReleased :=
    (some_get (by decide +kernel)).symm
  have run := System.Run.step twoChannels_run released
  refine ((forgets_nothing_iff run).mpr fun entry member => ?_).2.2
  rcases mem_append.mp member with first | second
  · obtain rfl := mem_singleton.mp first
    refine ⟨?_, trivial⟩
    rintro ⟨assigned, isAssigned, -⟩
    cases isAssigned
  · obtain rfl := mem_singleton.mp second
    refine ⟨?_, fun ue isUe id group lc isGroup isLc isReleased lcId isConfigured => ?_⟩
    · rintro ⟨assigned, isAssigned, -⟩
      cases isAssigned
    · have channels : twoChannels.configured 1 = [(1, 3), (1, 4)] := by decide +kernel
      exact List.mem_map_of_mem (f := Prod.snd) isConfigured

def reported : ChannelScheduler :=
  (step twoChannels (.dlRlcBuffer 1 1 ⟨3, 100, 0, 0⟩)).get (by decide +kernel)

def firstReleased : ChannelScheduler :=
  (step twoChannels (.lcRelease 1 [3])).get (by decide +kernel)

/-- An opportunity of one octet empties a queue of a hundred, and the release of one channel ends
the group of two. -/
theorem data_and_group_forgotten :
    (∃ trace, system.Run trace reported ∧ ¬reported.KeepsData (.assignedData 1 .dl 1 3 1)) ∧
      ∃ trace, system.Run trace firstReleased ∧ ¬firstReleased.GroupsPresent := by
  have isReported : system.step twoChannels (.dlRlcBuffer 1 1 ⟨3, 100, 0, 0⟩) = some reported :=
    (some_get (by decide +kernel)).symm
  have isReleased : system.step twoChannels (.lcRelease 1 [3]) = some firstReleased :=
    (some_get (by decide +kernel)).symm
  refine ⟨⟨_, twoChannels_run.step isReported, fun keeps => ?_⟩,
    ⟨_, twoChannels_run.step isReleased, fun present => ?_⟩⟩
  · have isAssignee : (⟨3, 100, 0, 0⟩, 1, .dl) ∈ reported.assignee (.assignedData 1 .dl 1 3 1) := by
      decide +kernel
    exact absurd (keeps _ isAssignee).1 (by decide)
  · have isUe : (firstReleased.ueMap 1).isSome = true := by decide +kernel
    obtain ⟨ue, isUe⟩ := isSome_iff_exists.mp isUe
    have left : (1, 4) ∈ firstReleased.configured 1 := by decide +kernel
    have gone : ((firstReleased.ueMap 1).bind fun ue => ue.ulLCG 1) = none := by decide +kernel
    rw [isUe, bind_some] at gone
    have isSome := (present 1 ue isUe 1).mpr ⟨4, left⟩
    rw [gone] at isSome
    cases isSome

end ChannelScheduler
end Ns3.Nr
