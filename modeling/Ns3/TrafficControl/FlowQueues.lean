import Ns3.TrafficControl.DeficitRoundRobin

/-!
# What an enqueue does to the queues of the flows

The packet goes to the end of one queue, unless that queue is full. If there are too many packets
then, some are dropped from the head of the queue with the most bytes, and one suffices.
-/

namespace Ns3.TrafficControl.FqCoDelQueueDisc

open List Option Nat

variable {config : FqCoDelConfig} {time : Nat} {disc : FqCoDelQueueDisc} {number other h : Nat} {flow : FqCoDelFlow}
  {item : QueueDiscItem}

theorem fattest_spec (classes : List FqCoDelFlow) (index maxBacklog i : Nat) :
    fattest index maxBacklog i classes = (index, maxBacklog) ∧
        (∀ flow ∈ classes, bytesOf flow.queueDisc.queue ≤ maxBacklog) ∨
      ∃ number flow, classes[number]? = some flow ∧ maxBacklog < bytesOf flow.queueDisc.queue ∧
        fattest index maxBacklog i classes = (i + number, bytesOf flow.queueDisc.queue) := by
  induction classes generalizing index maxBacklog i with
  | nil => exact .inl ⟨rfl, nofun⟩
  | cons first rest ih =>
    rw [fattest]
    by_cases more : bytesOf first.queueDisc.queue > maxBacklog
    · rw [if_pos more]
      rcases ih i (bytesOf first.queueDisc.queue) (i + 1) with ⟨isFirst, -⟩ | ⟨number, flow, found, less, isLater⟩
      · exact .inr ⟨0, first, rfl, more, isFirst⟩
      · refine .inr ⟨number + 1, flow, found, Nat.lt_trans more less, ?_⟩
        rw [isLater, Nat.add_assoc, Nat.add_comm 1]
    · rw [if_neg more]
      rcases ih index maxBacklog (i + 1) with ⟨isSame, all⟩ | ⟨number, flow, found, less, isLater⟩
      · exact .inl ⟨isSame, forall_mem_cons.mpr ⟨Nat.le_of_not_lt more, all⟩⟩
      · refine .inr ⟨number + 1, flow, found, less, ?_⟩
        rw [isLater, Nat.add_assoc, Nat.add_comm 1]

theorem totalBytes_cons (item : QueueDiscItem) (queue : List QueueDiscItem) :
    totalBytes (item :: queue) = item.size + totalBytes queue :=
  rfl

theorem dropFrom_spec {batch threshold count len : Nat} {queue : List QueueDiscItem} (notEmpty : queue ≠ [])
    (fit : len + totalBytes queue < 2 ^ 32) (half : threshold < len + totalBytes queue ∨ threshold = 0) :
    ∃ rest, dropFrom batch threshold count len queue = some rest ∧ rest <:+ queue ∧ rest.length < queue.length := by
  induction queue generalizing count len with
  | nil => exact absurd rfl notEmpty
  | cons first queue ih =>
    have counted : ¬bytesOf (first :: queue) < first.size := Nat.not_lt.mpr (size_le_bytesOf (by omega))
    rw [totalBytes_cons, ← Nat.add_assoc] at half fit
    have noWrap : (len + first.size) % 2 ^ 32 = len + first.size :=
      mod_eq_of_lt (Nat.lt_of_le_of_lt (le_add_right _ _) fit)
    rw [dropFrom, noWrap, if_neg counted]
    by_cases goes : count + 1 < batch ∧ len + first.size < threshold
    · rw [if_pos goes]
      have left : queue ≠ [] := by
        rintro rfl
        have empty : totalBytes [] = 0 := rfl
        omega
      obtain ⟨rest, isRest, suffix, less⟩ := ih left fit half
      exact ⟨rest, isRest, suffix.trans (suffix_cons _ _), lt_succ_of_lt less⟩
    · rw [if_neg goes]
      exact ⟨queue, rfl, suffix_cons _ _, lt_succ_self _⟩

/-- No packet is empty. -/
def Sized (disc : FqCoDelQueueDisc) : Prop :=
  ∀ number, ∀ item ∈ disc.queueAt number, 0 < item.size

theorem exists_backlog (consistent : disc.Consistent) (overloaded : 0 < disc.nPackets) :
    ∃ (number : Nat) (flow : FqCoDelFlow), disc.classes[number]? = some flow ∧ flow.queueDisc.queue ≠ [] := by
  rw [consistent.counted, total] at overloaded
  by_contra none
  have empty : ∀ length ∈ disc.classes.map fun flow => flow.queueDisc.queue.length, length = 0 := by
    intro length mem
    obtain ⟨flow, isFlow, rfl⟩ := List.mem_map.mp mem
    obtain ⟨number, found⟩ := mem_iff_getElem?.mp isFlow
    by_contra notZero
    exact none ⟨number, flow, found, fun isEmpty => notZero (by rw [isEmpty]; rfl)⟩
  rw [List.sum_eq_zero_iff_forall_eq_nat.mpr empty] at overloaded
  exact absurd overloaded (lt_irrefl 0)

/-- The queues are parts of what they were, and there are fewer packets. -/
theorem fqCoDelDrop_spec (consistent : disc.Consistent) (sized : disc.Sized) (fit : disc.BytesFit)
    (overloaded : 0 < disc.nPackets) :
    ∃ after, disc.fqCoDelDrop config = some after ∧ after.Consistent ∧ after.nPackets < disc.nPackets ∧
      (∀ other, after.queueAt other <:+ disc.queueAt other) ∧ after.flowsIndices = disc.flowsIndices ∧
      after.tags = disc.tags ∧ after.classes.length = disc.classes.length := by
  obtain ⟨number, backlog, isBacklog, notEmpty⟩ := exists_backlog consistent overloaded
  have pos : 0 < bytesOf backlog.queueDisc.queue := by
    obtain ⟨first, queue, isQueue⟩ := exists_cons_of_ne_nil notEmpty
    have size := sized number first (by rw [queueAt_of_found isBacklog, isQueue]; exact mem_cons_self)
    rw [bytesOf_eq (by rw [← queueAt_of_found isBacklog]; exact fit number), isQueue, totalBytes_cons]
    omega
  rcases fattest_spec disc.classes 0 0 0 with ⟨-, none⟩ | ⟨fat, flow, found, fatPositive, isFat⟩
  · have zero := none backlog (mem_of_getElem? isBacklog)
    omega
  · rw [zero_add] at isFat
    have left : flow.queueDisc.queue ≠ [] := by
      intro empty
      rw [empty] at fatPositive
      exact absurd fatPositive (lt_irrefl 0)
    have fits : 0 + totalBytes flow.queueDisc.queue < 2 ^ 32 := by
      rw [zero_add, ← queueAt_of_found found]
      exact fit fat
    have half : bytesOf flow.queueDisc.queue >>> 1 < 0 + totalBytes flow.queueDisc.queue ∨
        bytesOf flow.queueDisc.queue >>> 1 = 0 := by
      rw [bytesOf_eq (by omega), shiftRight_eq_div_pow]
      omega
    obtain ⟨rest, isRest, suffix, less⟩ := @dropFrom_spec config.dropBatchSize _ 0 0 _ left fits half
    refine ⟨disc.setQueueDisc fat { flow.queueDisc with queue := rest }, ?_, ?_, ?_, fun other => ?_, rfl, rfl,
      List.length_modify _ _ _⟩
    · rw [fqCoDelDrop, isFat]
      dsimp only
      rw [found, bind_some, isRest]
      rfl
    · exact consistent.setQueueDisc found fun _ => consistent.backlog fat (by rwa [queueAt_of_found found])
    · change disc.nPackets + rest.length - (disc.queueAt fat).length < _
      have within : flow.queueDisc.queue.length ≤ disc.nPackets + rest.length := by
        have total := @total_setQueueDisc disc fat flow { flow.queueDisc with queue := rest } found
        change _ + _ = _ + rest.length at total
        rw [consistent.counted]
        omega
      rw [queueAt_of_found found]
      omega
    · by_cases same : fat = other
      · subst same
        rw [queueAt_setQueueDisc found, queueAt_of_found found]
        exact suffix
      · rw [queueAt_setQueueDisc_ne same]

/-- Each class belongs to one index. -/
structure Indexed (disc : FqCoDelQueueDisc) : Prop where
  inside : ∀ i number, disc.flowsIndices i = some number -> number < disc.classes.length
  injective : ∀ i j number, disc.flowsIndices i = some number -> disc.flowsIndices j = some number -> i = j
  all : ∀ number, number < disc.classes.length -> ∃ i, disc.flowsIndices i = some number

variable {after : FqCoDelQueueDisc}

theorem Indexed.of_same (indexed : disc.Indexed)
    (flowsIndices : after.flowsIndices = disc.flowsIndices) (length : after.classes.length = disc.classes.length) :
    after.Indexed := by
  refine ⟨?_, ?_, ?_⟩
  · rw [flowsIndices, length]
    exact indexed.inside
  · rw [flowsIndices]
    exact indexed.injective
  · rw [flowsIndices, length]
    exact indexed.all

theorem queueAt_of_ge (outside : disc.classes.length ≤ number) : disc.queueAt number = [] := by
  rw [queueAt, getElem?_eq_none outside]
  rfl

theorem Consistent.lt_length (consistent : disc.Consistent) (mem : number ∈ disc.listed) :
    number < disc.classes.length := by
  obtain ⟨flow, found⟩ := consistent.found mem
  exact (List.getElem?_eq_some_iff.mp found).1

/-- The class for an index, which is there or is added without packets. -/
structure Found (before : FqCoDelQueueDisc) (h number : Nat) (after : FqCoDelQueueDisc) : Prop where
  consistent : after.Consistent
  indexed : after.Indexed
  isNumber : after.flowsIndices h = some number
  new : before.flowsIndices h = none -> before.queueAt number = []
  others : ∀ i, i ≠ h -> after.flowsIndices i = before.flowsIndices i
  queueAt : ∀ other, after.queueAt other = before.queueAt other
  tags : after.tags = before.tags
  nPackets : after.nPackets = before.nPackets

theorem classes_append (added : FqCoDelFlow) (number : Nat) :
    (disc.classes ++ [added])[number]? =
      if number = disc.classes.length then some added else disc.classes[number]? := by
  rw [getElem?_append]
  split
  · rename_i inside
    rw [if_neg (Nat.ne_of_lt inside)]
  · rename_i outside
    by_cases last : number = disc.classes.length
    · rw [if_pos last, last, Nat.sub_self]
      rfl
    · rw [if_neg last, getElem?_eq_none (by simp; omega), getElem?_eq_none (by omega)]

theorem Indexed.append (indexed : disc.Indexed) (new : disc.flowsIndices h = none)
    (isIndex : ∀ i, after.flowsIndices i = if i = h then some disc.classes.length else disc.flowsIndices i)
    (length : after.classes.length = disc.classes.length + 1) : after.Indexed where
  inside := by
    intro i number found
    rw [isIndex] at found
    rw [length]
    split at found
    · rw [← some.inj found]
      exact Nat.lt_succ_self _
    · exact Nat.lt_succ_of_lt (indexed.inside i number found)
  injective := by
    intro i j number isFirst isSecond
    rw [isIndex] at isFirst isSecond
    by_cases first : i = h <;> by_cases second : j = h
    · rw [first, second]
    · rw [if_pos first] at isFirst
      rw [if_neg second] at isSecond
      exact absurd (some.inj isFirst).symm (Nat.ne_of_lt (indexed.inside j number isSecond))
    · rw [if_neg first] at isFirst
      rw [if_pos second] at isSecond
      exact absurd (some.inj isSecond).symm (Nat.ne_of_lt (indexed.inside i number isFirst))
    · rw [if_neg first] at isFirst
      rw [if_neg second] at isSecond
      exact indexed.injective i j number isFirst isSecond
  all := by
    intro number inside
    rw [length] at inside
    by_cases last : number = disc.classes.length
    · exact ⟨h, by rw [isIndex, if_pos rfl, last]⟩
    · obtain ⟨i, found⟩ := indexed.all number (by omega)
      refine ⟨i, ?_⟩
      rw [isIndex, if_neg]
      · exact found
      · rintro rfl
        exact some_ne_none number (found.symm.trans new)

section

variable (consistent : disc.Consistent)
include consistent

theorem withFlow_found (indexed : disc.Indexed) (h : Nat) :
    ∃ number, Found disc h number (disc.withFlow h) := by
  cases isNumber : disc.flowsIndices h with
  | some number =>
    have same : disc.withFlow h = disc := if_neg (by rw [isNumber]; exact Bool.false_ne_true)
    rw [same]
    refine ⟨number, consistent, indexed, isNumber, fun none => ?_, fun _ _ => rfl, fun _ => rfl, rfl, rfl⟩
    rw [isNumber] at none
    cases none
  | none =>
    have isNew : disc.withFlow h = { disc with
        classes := disc.classes ++ [{ index := h }]
        flowsIndices := Function.update disc.flowsIndices h (some disc.classes.length) } :=
      if_pos (by rw [isNumber]; rfl)
    have queues : ∀ other, (disc.withFlow h).queueAt other = disc.queueAt other := by
      intro other
      rw [isNew, queueAt, classes_append]
      by_cases last : other = disc.classes.length
      · rw [if_pos last, last, queueAt_of_ge (le_refl _)]
        rfl
      · rw [if_neg last]
        rfl
    have notListed : disc.classes.length ∉ disc.listed := fun mem =>
      absurd (consistent.lt_length mem) (lt_irrefl _)
    rw [listed, mem_append, not_or] at notListed
    have status : ∀ other status, status ≠ FlowStatus.inactive ->
        ((disc.withFlow h).statusAt other = some status ↔ disc.statusAt other = some status) := by
      intro other status active
      rw [isNew, statusAt, classes_append]
      by_cases last : other = disc.classes.length
      · rw [if_pos last, last, statusAt, getElem?_eq_none (le_refl _)]
        exact iff_of_false (fun same => active (some.inj same).symm) (some_ne_none _).symm
      · rw [if_neg last]
        rfl
    have isIndexed : (disc.withFlow h).Indexed := by
      apply indexed.append isNumber
      · intro i
        rw [isNew]
        exact Function.update_apply _ _ _ _
      · rw [isNew]
        exact length_append
    refine ⟨disc.classes.length, ⟨?_, ?_, ?_, ?_, ?_⟩, isIndexed, ?_,
      fun _ => queueAt_of_ge (le_refl _), ?_, queues, ?_, ?_⟩
    · rw [isNew]
      exact consistent.once
    · intro other
      rw [status other _ (by decide), ← consistent.new other, isNew]
    · intro other
      rw [status other _ (by decide), ← consistent.old other, isNew]
    · intro other
      rw [queues other, isNew]
      exact consistent.backlog other
    · rw [isNew, total, map_append, sum_append_nat]
      exact consistent.counted
    · rw [isNew]
      exact Function.update_self _ _ _
    · intro i ne
      rw [isNew]
      exact Function.update_of_ne ne _ _
    · rw [isNew]
    · rw [isNew]

/-- An inactive flow becomes the last of the new ones. -/
theorem Consistent.inactiveToNew (inactive : disc.statusAt number = some .inactive)
    {change : FqCoDelFlow -> FqCoDelFlow} (leaves : ∀ flow, (change flow).queueDisc = flow.queueDisc)
    (starts : ∀ flow, (change flow).status = .newFlow) :
    Moves number disc { disc.modifyClass number change with newFlows := disc.newFlows ++ [number] } := by
  have notOld : number ∉ disc.oldFlows := by
    rw [consistent.old, inactive]
    simp
  have notListed : number ∉ disc.listed := by
    rw [listed, mem_append, consistent.new, inactive]
    simpa using notOld
  obtain ⟨flow, found, -⟩ := map_eq_some_iff.mp inactive
  apply Moves.of_status leaves (by rw [statusAt_of_found (modifyClass_self found), starts])
  · have perm : ((disc.newFlows ++ [number]) ++ disc.oldFlows).Perm (number :: disc.listed) :=
      (perm_append_singleton number disc.newFlows).append_right disc.oldFlows
    exact perm.nodup_iff.mpr (nodup_cons.mpr ⟨notListed, consistent.once⟩)
  · intro other ne
    rw [mem_append, mem_singleton]
    exact ⟨or_iff_left ne, Iff.rfl⟩
  · exact iff_of_true (by simp) rfl
  · exact iff_of_false notOld (by simp)
  · simp

theorem Consistent.activate (found : disc.classes[number]? = some flow) :
    (disc.activate config number).Consistent ∧ SameQueues disc (disc.activate config number) ∧
      number ∈ (disc.activate config number).listed := by
  by_cases inactive : disc.statusAt number = some .inactive
  · have moves := @Consistent.inactiveToNew disc number consistent inactive
      (fun flow => (flow.setStatus .newFlow).setDeficit config.quantum) (by simp) (by simp)
    rw [FqCoDelQueueDisc.activate, if_pos inactive]
    refine ⟨moves.consistent consistent, moves.same, ?_⟩
    rw [listed]
    simp
  · rw [FqCoDelQueueDisc.activate, if_neg inactive]
    refine ⟨consistent, SameQueues.refl disc, mem_append.mpr ?_⟩
    rw [consistent.new, consistent.old]
    rw [statusAt_of_found found] at inactive ⊢
    cases isStatus : flow.status with
    | inactive => exact absurd (congrArg some isStatus) inactive
    | newFlow => exact .inl rfl
    | oldFlow => exact .inr rfl

/-- What the queues are after a packet has come for one of them. -/
structure Puts (before : FqCoDelQueueDisc) (number : Nat) (item : QueueDiscItem) (after : FqCoDelQueueDisc) : Prop where
  queue : ∃ added, (added = [] ∨ added = [item]) ∧ after.queueAt number <:+ before.queueAt number ++ added
  others : ∀ other, other ≠ number -> after.queueAt other <:+ before.queueAt other

theorem length_queueAt_le (number : Nat) : (disc.queueAt number).length ≤ disc.nPackets := by
  rw [consistent.counted, queueAt]
  cases found : disc.classes[number]? with
  | none => exact zero_le _
  | some flow =>
    have total := @total_setQueueDisc disc number flow {} found
    exact Nat.le_of_add_left_le (Nat.le_of_eq total)

end

/-- A packet that a queue has room for leaves its bytes countable. -/
def RoomAt (config : FqCoDelConfig) (disc : FqCoDelQueueDisc) (number : Nat) (item : QueueDiscItem) : Prop :=
  (disc.queueAt number).length < config.maxSize -> totalBytes (disc.queueAt number) + item.size < 2 ^ 32

instance : Decidable (disc.RoomAt config number item) :=
  inferInstanceAs (Decidable (_ -> _))

theorem enqueueTo_bytesFit (valid : Valid config) (limited : (disc.queueAt number).length ≤ config.maxSize)
    (fit : disc.BytesFit) (room : disc.RoomAt config number item) (found : disc.classes[number]? = some flow) :
    (disc.enqueueTo config time number item).BytesFit := by
  have noWrap : (flow.queueDisc.queue.length + 1) % 2 ^ 32 = flow.queueDisc.queue.length + 1 := by
    rw [queueAt_of_found found] at limited
    exact mod_eq_of_lt (Nat.lt_of_le_of_lt (succ_le_succ limited) valid.maxSize)
  intro other
  rw [enqueueTo, found]
  dsimp only
  by_cases same : number = other
  · subst same
    rw [queueAt_setQueueDisc found, CoDelQueueDisc.enqueue, noWrap]
    rw [RoomAt, queueAt_of_found found] at room
    split
    · rw [← queueAt_of_found found]
      exact fit number
    · rename_i notFull
      rw [totalBytes_append]
      exact room (Nat.le_of_not_lt notFull)
  · rw [queueAt_setQueueDisc_ne same]
    exact fit other

theorem enqueueTo_spec (consistent : disc.Consistent) (found : disc.classes[number]? = some flow)
    (mem : number ∈ disc.listed) :
    (disc.enqueueTo config time number item).Consistent ∧
      Puts disc number { item with timeStamp := time } (disc.enqueueTo config time number item) ∧
      (disc.enqueueTo config time number item).nPackets ≤ disc.nPackets + 1 ∧
      (disc.enqueueTo config time number item).flowsIndices = disc.flowsIndices ∧
      (disc.enqueueTo config time number item).tags = disc.tags ∧
      (disc.enqueueTo config time number item).classes.length = disc.classes.length := by
  have isPut : disc.enqueueTo config time number item =
      disc.setQueueDisc number (flow.queueDisc.enqueue time config.maxSize item) := by
    rw [enqueueTo, found]
  obtain ⟨added, isAdded, isQueue, length⟩ : ∃ added, (added = [] ∨ added = [{ item with timeStamp := time }]) ∧
      (flow.queueDisc.enqueue time config.maxSize item).queue = flow.queueDisc.queue ++ added ∧ added.length ≤ 1 := by
    unfold CoDelQueueDisc.enqueue
    split
    · exact ⟨[], .inl rfl, (append_nil _).symm, zero_le _⟩
    · exact ⟨_, .inr rfl, rfl, le_refl _⟩
  rw [isPut]
  refine ⟨consistent.setQueueDisc found fun _ => mem, ⟨⟨added, isAdded, ?_⟩, fun other ne => ?_⟩, ?_, rfl, rfl,
    List.length_modify _ _ _⟩
  · rw [queueAt_setQueueDisc found, queueAt_of_found found, isQueue]
  · rw [queueAt_setQueueDisc_ne ne.symm]
  · change disc.nPackets + (flow.queueDisc.enqueue time config.maxSize item).queue.length -
      (disc.queueAt number).length ≤ _
    rw [queueAt_of_found found, isQueue, length_append]
    omega

/-- A packet that is queued then was there before, or is the new one. -/
theorem Puts.mem {before : FqCoDelQueueDisc} {queued : QueueDiscItem} (puts : Puts before number item after)
    (mem : queued ∈ after.queueAt other) : queued ∈ before.queueAt other ∨ other = number ∧ queued = item := by
  by_cases same : other = number
  · subst same
    obtain ⟨added, isAdded, suffix⟩ := puts.queue
    rcases mem_append.mp (suffix.mem mem) with isOld | isNew
    · exact .inl isOld
    · rcases isAdded with rfl | rfl
      · cases isNew
      · exact .inr ⟨rfl, mem_singleton.mp isNew⟩
  · exact .inl ((puts.others other same).mem mem)

theorem Puts.sized {before : FqCoDelQueueDisc} (puts : Puts before number item after) (sized : before.Sized)
    (pos : 0 < item.size) : after.Sized := by
  intro other queued mem
  rcases puts.mem mem with isOld | ⟨-, rfl⟩
  · exact sized other queued isOld
  · exact pos

/-- The flow of a packet has a class, and the other ones are as they were. -/
structure Classified (config : FqCoDelConfig) (before : FqCoDelQueueDisc) (flowHash number : Nat)
    (after : FqCoDelQueueDisc) : Prop where
  consistent : after.Consistent
  indexed : after.Indexed
  isNumber : after.flowsIndices (before.indexOf config flowHash) = some number
  others : ∀ i, i ≠ before.indexOf config flowHash -> after.flowsIndices i = before.flowsIndices i
  known : ∀ known, before.flowsIndices (before.indexOf config flowHash) = some known -> known = number
  new : before.flowsIndices (before.indexOf config flowHash) = none -> before.queueAt number = []
  tags : after.tags = (before.tagged config flowHash).tags

theorem Classified.of_same {flowHash : Nat} {active : FqCoDelQueueDisc}
    (classified : Classified config disc flowHash number active) (consistent : after.Consistent)
    (flowsIndices : after.flowsIndices = active.flowsIndices) (tags : after.tags = active.tags)
    (length : after.classes.length = active.classes.length) : Classified config disc flowHash number after where
  consistent := consistent
  indexed := classified.indexed.of_same flowsIndices length
  isNumber := flowsIndices ▸ classified.isNumber
  others := flowsIndices ▸ classified.others
  known := classified.known
  new := classified.new
  tags := tags.trans classified.tags

/-- All that an enqueue does, for a packet that is classified. -/
structure Enqueued (config : FqCoDelConfig) (before : FqCoDelQueueDisc) (flowHash number : Nat) (item : QueueDiscItem)
    (after : FqCoDelQueueDisc) : Prop extends Classified config before flowHash number after where
  bytesFit : after.BytesFit
  limited : after.nPackets ≤ config.maxSize
  puts : Puts before number item after

theorem tagged_consistent (consistent : disc.Consistent) (flowHash : Nat) :
    (disc.tagged config flowHash).Consistent := by
  unfold tagged
  split
  · exact ⟨consistent.once, consistent.new, consistent.old, consistent.backlog, consistent.counted⟩
  · exact consistent

theorem tagged_same (flowHash : Nat) : (disc.tagged config flowHash).classes = disc.classes ∧
    (disc.tagged config flowHash).flowsIndices = disc.flowsIndices ∧
    (disc.tagged config flowHash).nPackets = disc.nPackets := by
  unfold tagged
  split <;> exact ⟨rfl, rfl, rfl⟩

/-- What precedes the packet in an enqueue: the class of its flow is found, and listed. -/
theorem exists_classified (consistent : disc.Consistent) (indexed : disc.Indexed) (flowHash : Nat) :
    ∃ active number, Classified config disc flowHash number active ∧ number ∈ active.listed ∧
      (∀ other, active.queueAt other = disc.queueAt other) ∧ active.nPackets = disc.nPackets ∧
      ∀ time item, item.flowHash = some flowHash -> disc.doEnqueue config time item =
        if config.maxSize < (active.enqueueTo config time number item).nPackets % 2 ^ 32 then
          (active.enqueueTo config time number item).fqCoDelDrop config
        else some (active.enqueueTo config time number item) := by
  obtain ⟨sameClasses, sameIndices, samePackets⟩ := @tagged_same config disc flowHash
  have sameQueues : ∀ other, (disc.tagged config flowHash).queueAt other = disc.queueAt other := by
    intro other
    rw [queueAt, sameClasses, queueAt]
  obtain ⟨number, found⟩ := withFlow_found (tagged_consistent consistent flowHash)
    (indexed.of_same sameIndices (congrArg List.length sameClasses)) (disc.indexOf config flowHash)
  have inside := found.indexed.inside _ number found.isNumber
  obtain ⟨isActive, same, mem⟩ := @Consistent.activate config _ number _ found.consistent (getElem?_eq_getElem inside)
  have classified : Classified config disc flowHash number
      ((disc.tagged config flowHash).withFlow (disc.indexOf config flowHash)) := by
    refine ⟨found.consistent, found.indexed, found.isNumber, fun i ne => ?_, fun known isKnown => ?_, fun none => ?_,
      found.tags⟩
    · rw [found.others i ne, sameIndices]
    · have stays : ((disc.tagged config flowHash).withFlow (disc.indexOf config flowHash)).flowsIndices
          (disc.indexOf config flowHash) = some known := by
        rw [withFlow, if_neg (by rw [sameIndices, isKnown]; exact Bool.false_ne_true), sameIndices, isKnown]
      exact some.inj (stays.symm.trans found.isNumber)
    · rw [← sameQueues]
      exact found.new (by rw [sameIndices, none])
  refine ⟨_, number, classified.of_same isActive same.flowsIndices same.tags same.length, mem, fun other => ?_, ?_,
    fun time item isHash => ?_⟩
  · rw [same.queueAt, found.queueAt, sameQueues]
  · rw [same.nPackets, found.nPackets, samePackets]
  · rw [doEnqueue, isHash]
    dsimp only
    rw [found.isNumber, bind_some]

/-- What is asked of a packet: it is not empty, its size can be taken from a deficit, and the bytes
of the queue it is put to can still be counted. -/
structure Fits (config : FqCoDelConfig) (disc : FqCoDelQueueDisc) (item : QueueDiscItem) : Prop where
  pos : 0 < item.size
  size : item.size < 2 ^ 31
  room : ∀ flowHash ∈ item.flowHash, ∀ number ∈ disc.flowsIndices (disc.indexOf config flowHash),
    disc.RoomAt config number item

instance : Decidable (disc.Fits config item) :=
  decidable_of_iff (0 < item.size ∧ item.size < 2 ^ 31 ∧ ∀ flowHash ∈ item.flowHash,
    ∀ number ∈ disc.flowsIndices (disc.indexOf config flowHash), disc.RoomAt config number item)
    ⟨fun ⟨pos, size, room⟩ => ⟨pos, size, room⟩, fun fits => ⟨fits.pos, fits.size, fits.room⟩⟩

theorem doEnqueue_spec (valid : Valid config) (consistent : disc.Consistent) (indexed : disc.Indexed)
    (sized : disc.Sized) (bytesFit : disc.BytesFit) (limited : disc.nPackets ≤ config.maxSize) {flowHash : Nat}
    (isHash : item.flowHash = some flowHash) (fits : disc.Fits config item) :
    ∃ after number, disc.doEnqueue config time item = some after ∧
      Enqueued config disc flowHash number { item with timeStamp := time } after := by
  obtain ⟨active, number, classified, mem, queues, nPackets, isEnqueue⟩ :=
    @exists_classified config disc consistent indexed flowHash
  obtain ⟨flow, isFlow⟩ := classified.consistent.found mem
  obtain ⟨isPut, puts, packets, indices, tags, length⟩ :=
    @enqueueTo_spec config time _ number flow item classified.consistent isFlow mem
  have putsBefore : Puts disc number { item with timeStamp := time } (active.enqueueTo config time number item) := by
    refine ⟨?_, fun other ne => ?_⟩
    · rw [← queues]
      exact puts.queue
    · rw [← queues]
      exact puts.others other ne
  have room : active.RoomAt config number item := by
    rw [RoomAt, queues]
    intro notFull
    cases isKnown : disc.flowsIndices (disc.indexOf config flowHash) with
    | some other => exact fits.room flowHash isHash number (classified.known other isKnown ▸ isKnown) notFull
    | none =>
      rw [classified.new isKnown]
      exact Nat.lt_trans (by simpa [totalBytes] using fits.size) (by decide)
  have few : (active.queueAt number).length ≤ config.maxSize := by
    rw [queues]
    exact Nat.le_trans (length_queueAt_le consistent number) limited
  have putFit :=
    @enqueueTo_bytesFit config time active number flow item valid few
      (bytesFit.of_suffix fun other => queues other ▸ suffix_refl _)
    room isFlow
  have put := classified.of_same isPut indices tags length
  have noWrap : (active.enqueueTo config time number item).nPackets % 2 ^ 32 =
      (active.enqueueTo config time number item).nPackets :=
    mod_eq_of_lt (Nat.lt_of_le_of_lt (by omega) valid.maxSize)
  have isEnqueue := isEnqueue time item isHash
  rw [noWrap] at isEnqueue
  by_cases overload : config.maxSize < (active.enqueueTo config time number item).nPackets
  · obtain ⟨after, isAfter, isConsistent, less, suffixes, sameIndex, sameTags, sameLength⟩ :=
      @fqCoDelDrop_spec config _ isPut (putsBefore.sized sized fits.pos) putFit (Nat.zero_lt_of_lt overload)
    rw [if_pos overload, isAfter] at isEnqueue
    refine ⟨after, number, isEnqueue, put.of_same isConsistent sameIndex sameTags sameLength, putFit.of_suffix suffixes,
      by omega, ?_, fun other ne => (suffixes other).trans (putsBefore.others other ne)⟩
    obtain ⟨added, isAdded, suffix⟩ := putsBefore.queue
    exact ⟨added, isAdded, (suffixes number).trans suffix⟩
  · rw [if_neg overload] at isEnqueue
    exact ⟨_, number, isEnqueue, put, putFit, Nat.le_of_not_lt overload, putsBefore⟩

end Ns3.TrafficControl.FqCoDelQueueDisc
