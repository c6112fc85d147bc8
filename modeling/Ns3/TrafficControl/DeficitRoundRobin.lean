import Ns3.TrafficControl.FqCoDel

/-!
# The lists of flows

Every flow with a packet is in one of the two lists, once. A round either moves credit or takes a
flow out of the new flows or of the lists, so `DoDequeue` comes to an end: it takes a packet, or all
flows are empty.
-/

namespace Ns3.TrafficControl.FqCoDelQueueDisc

open List Option

variable {config : FqCoDelConfig} {time : Nat} {disc : FqCoDelQueueDisc} {number other : Nat} {flow : FqCoDelFlow}
  {change : FqCoDelFlow -> FqCoDelFlow}

/-! ## Changing one flow -/

theorem getElem?_modify (classes : List FqCoDelFlow) (number other : Nat) (change : FqCoDelFlow -> FqCoDelFlow) :
    (classes.modify number change)[other]? = if number = other then classes[other]?.map change
      else classes[other]? := by
  rw [List.getElem?_modify]
  cases classes[other]? with
  | none => split <;> rfl
  | some flow => split <;> simp_all

theorem modifyClass_self (found : disc.classes[number]? = some flow) :
    (disc.modifyClass number change).classes[number]? = some (change flow) := by
  rw [modifyClass, getElem?_modify, if_pos rfl, found, map_some]

theorem modifyClass_ne (ne : number ≠ other) :
    (disc.modifyClass number change).classes[other]? = disc.classes[other]? := by
  rw [modifyClass, getElem?_modify, if_neg ne]

theorem queueAt_modifyClass (leaves : ∀ flow, (change flow).queueDisc = flow.queueDisc) (other : Nat) :
    (disc.modifyClass number change).queueAt other = disc.queueAt other := by
  rw [queueAt, modifyClass, getElem?_modify]
  split
  · rw [Option.map_map]
    congr 2
    ext flow
    simp [leaves]
  · rfl

theorem statusAt_modifyClass_ne (ne : number ≠ other) :
    (disc.modifyClass number change).statusAt other = disc.statusAt other := by
  rw [statusAt, modifyClass_ne ne, statusAt]

theorem statusAt_modifyClass (leaves : ∀ flow, (change flow).status = flow.status) (other : Nat) :
    (disc.modifyClass number change).statusAt other = disc.statusAt other := by
  rw [statusAt, modifyClass, getElem?_modify]
  split
  · rw [Option.map_map]
    congr 1
    ext flow
    simp [leaves]
  · rfl

theorem sum_modify (classes : List FqCoDelFlow) (size : FqCoDelFlow -> Nat) (found : classes[number]? = some flow) :
    ((classes.modify number change).map size).sum + size flow = (classes.map size).sum + size (change flow) := by
  induction classes generalizing number with
  | nil => cases found
  | cons first rest ih =>
    cases number with
    | zero =>
      cases found
      simp only [modify_zero_cons, map_cons, sum_cons]
      omega
    | succ number =>
      have later := ih found
      simp only [modify_succ_cons, map_cons, sum_cons]
      omega

/-- The packets that are queued. -/
def total (disc : FqCoDelQueueDisc) : Nat :=
  (disc.classes.map fun flow => flow.queueDisc.queue.length).sum

theorem total_modifyClass (leaves : ∀ flow, (change flow).queueDisc = flow.queueDisc) :
    (disc.modifyClass number change).total = disc.total := by
  cases found : disc.classes[number]? with
  | none =>
    rw [modifyClass, modify_eq_self (getElem?_eq_none_iff.mp found)]
  | some flow =>
    have sum := @sum_modify number flow change disc.classes (fun flow => flow.queueDisc.queue.length) found
    rw [leaves] at sum
    exact Nat.add_right_cancel sum

theorem queueAt_of_found (found : disc.classes[number]? = some flow) : disc.queueAt number = flow.queueDisc.queue := by
  rw [queueAt, found]
  rfl

theorem statusAt_setQueueDisc {queueDisc : CoDelQueueDisc} (other : Nat) :
    (disc.setQueueDisc number queueDisc).statusAt other = disc.statusAt other :=
  @statusAt_modifyClass disc number (fun flow => { flow with queueDisc }) (fun _ => rfl) other

theorem queueAt_setQueueDisc_ne {queueDisc : CoDelQueueDisc} (ne : number ≠ other) :
    (disc.setQueueDisc number queueDisc).queueAt other = disc.queueAt other := by
  rw [queueAt]
  congr 2
  exact modifyClass_ne ne

section SetQueueDisc

variable {queueDisc : CoDelQueueDisc} (found : disc.classes[number]? = some flow)
include found

theorem queueAt_setQueueDisc : (disc.setQueueDisc number queueDisc).queueAt number = queueDisc.queue :=
  queueAt_of_found (modifyClass_self found)

theorem total_setQueueDisc :
    (disc.setQueueDisc number queueDisc).total + flow.queueDisc.queue.length = disc.total + queueDisc.queue.length :=
  sum_modify disc.classes (fun flow => flow.queueDisc.queue.length) found

end SetQueueDisc

/-! ## The lists -/

def listed (disc : FqCoDelQueueDisc) : List Nat :=
  disc.newFlows ++ disc.oldFlows

/-- Each flow is in the list of its status. -/
structure Consistent (disc : FqCoDelQueueDisc) : Prop where
  once : disc.listed.Nodup
  new : ∀ number, number ∈ disc.newFlows ↔ disc.statusAt number = some .newFlow
  old : ∀ number, number ∈ disc.oldFlows ↔ disc.statusAt number = some .oldFlow
  backlog : ∀ number, disc.queueAt number ≠ [] -> number ∈ disc.listed
  counted : disc.nPackets = disc.total

theorem Consistent.found (consistent : disc.Consistent) (mem : number ∈ disc.listed) :
    ∃ flow, disc.classes[number]? = some flow := by
  have status : ∃ status, disc.statusAt number = some status := by
    rcases mem_append.mp mem with isNew | isOld
    · exact ⟨_, (consistent.new number).mp isNew⟩
    · exact ⟨_, (consistent.old number).mp isOld⟩
  obtain ⟨status, isStatus⟩ := status
  obtain ⟨flow, isFlow, -⟩ := map_eq_some_iff.mp isStatus
  exact ⟨flow, isFlow⟩

theorem statusAt_of_found (found : disc.classes[number]? = some flow) : disc.statusAt number = some flow.status := by
  rw [statusAt, found, map_some]

/-- Queues and classification as before. -/
structure SameQueues (before after : FqCoDelQueueDisc) : Prop where
  queueAt : ∀ number, after.queueAt number = before.queueAt number
  flowsIndices : after.flowsIndices = before.flowsIndices
  tags : after.tags = before.tags
  length : after.classes.length = before.classes.length
  nPackets : after.nPackets = before.nPackets

theorem SameQueues.refl (disc : FqCoDelQueueDisc) : SameQueues disc disc :=
  ⟨fun _ => rfl, rfl, rfl, rfl, rfl⟩

theorem SameQueues.trans {first second third : FqCoDelQueueDisc} (same : SameQueues first second)
    (again : SameQueues second third) : SameQueues first third where
  queueAt := fun number => (again.queueAt number).trans (same.queueAt number)
  flowsIndices := again.flowsIndices.trans same.flowsIndices
  tags := again.tags.trans same.tags
  length := again.length.trans same.length
  nPackets := again.nPackets.trans same.nPackets

/-- A flow goes from one place of the lists to another, and nothing else changes. -/
structure Moves (number : Nat) (before after : FqCoDelQueueDisc) : Prop where
  same : SameQueues before after
  total : after.total = before.total
  others : ∀ other, other ≠ number -> after.statusAt other = before.statusAt other ∧
    (other ∈ after.newFlows ↔ other ∈ before.newFlows) ∧ (other ∈ after.oldFlows ↔ other ∈ before.oldFlows)
  once : after.listed.Nodup
  new : number ∈ after.newFlows ↔ after.statusAt number = some .newFlow
  old : number ∈ after.oldFlows ↔ after.statusAt number = some .oldFlow
  backlog : before.queueAt number ≠ [] -> number ∈ after.listed

theorem Moves.consistent {next : FqCoDelQueueDisc} (moves : Moves number disc next) (consistent : disc.Consistent) :
    next.Consistent where
  once := moves.once
  new := by
    intro other
    by_cases same : other = number
    · rw [same]
      exact moves.new
    · obtain ⟨status, new, -⟩ := moves.others other same
      rw [status, new]
      exact consistent.new other
  old := by
    intro other
    by_cases same : other = number
    · rw [same]
      exact moves.old
    · obtain ⟨status, -, old⟩ := moves.others other same
      rw [status, old]
      exact consistent.old other
  backlog := by
    intro other notEmpty
    rw [moves.same.queueAt other] at notEmpty
    by_cases same : other = number
    · subst same
      exact moves.backlog notEmpty
    · obtain ⟨-, new, old⟩ := moves.others other same
      rw [listed, mem_append, new, old, ← mem_append]
      exact consistent.backlog other notEmpty
  counted := by
    rw [moves.same.nPackets, consistent.counted, moves.total]

theorem SameQueues.of_modifyClass (leaves : ∀ flow, (change flow).queueDisc = flow.queueDisc)
    (newFlows oldFlows : List Nat) :
    SameQueues disc { disc.modifyClass number change with newFlows, oldFlows } where
  queueAt := fun other => queueAt_modifyClass leaves other
  flowsIndices := rfl
  tags := rfl
  length := length_modify _ _ _
  nPackets := rfl

section Front

variable {newFlows oldFlows rest : List Nat}

/-- A flow changes its status and its place. -/
theorem Moves.of_status {status : FlowStatus} (leaves : ∀ flow, (change flow).queueDisc = flow.queueDisc)
    (isStatus : (disc.modifyClass number change).statusAt number = some status) (once : (newFlows ++ oldFlows).Nodup)
    (others : ∀ other, other ≠ number ->
      (other ∈ newFlows ↔ other ∈ disc.newFlows) ∧ (other ∈ oldFlows ↔ other ∈ disc.oldFlows))
    (new : number ∈ newFlows ↔ status = .newFlow) (old : number ∈ oldFlows ↔ status = .oldFlow)
    (backlog : disc.queueAt number ≠ [] -> status ≠ .inactive) :
    Moves number disc { disc.modifyClass number change with newFlows, oldFlows } where
  same := .of_modifyClass leaves _ _
  total := total_modifyClass leaves
  others := fun other ne => ⟨statusAt_modifyClass_ne ne.symm, others other ne⟩
  once := once
  new := new.trans (by rw [← Option.some_inj, ← isStatus]; rfl)
  old := old.trans (by rw [← Option.some_inj, ← isStatus]; rfl)
  backlog := by
    intro notEmpty
    apply mem_append.mpr
    cases status with
    | inactive => exact absurd rfl (backlog notEmpty)
    | newFlow => exact .inl (new.mpr rfl)
    | oldFlow => exact .inr (old.mpr rfl)

variable (consistent : disc.Consistent)
include consistent

/-- The first of the new flows becomes the last of the old ones. -/
theorem Consistent.newToOld (isNew : disc.newFlows = number :: rest)
    (leaves : ∀ flow, (change flow).queueDisc = flow.queueDisc) (ages : ∀ flow, (change flow).status = .oldFlow) :
    Moves number disc
      { disc.modifyClass number change with newFlows := rest, oldFlows := disc.oldFlows ++ [number] } := by
  have once := consistent.once
  rw [listed, isNew, cons_append] at once
  obtain ⟨notLater, onceRest⟩ := nodup_cons.mp once
  rw [mem_append, not_or] at notLater
  obtain ⟨flow, found⟩ := consistent.found (by rw [listed, isNew]; exact mem_cons_self)
  apply Moves.of_status leaves (by rw [statusAt_of_found (modifyClass_self found), ages])
  · rw [← append_assoc]
    apply nodup_append.mpr ⟨onceRest, nodup_singleton _, fun other mem last isLast same => ?_⟩
    rw [same, mem_singleton.mp isLast, mem_append] at mem
    exact mem.elim notLater.1 notLater.2
  · intro other ne
    rw [isNew, mem_cons, mem_append, mem_singleton]
    exact ⟨(or_iff_right ne).symm, or_iff_left ne⟩
  · exact iff_of_false notLater.1 (by simp)
  · exact iff_of_true (by simp) rfl
  · simp

/-- The first of the old flows becomes the last of them. -/
theorem Consistent.oldToEnd (noNew : disc.newFlows = []) (isOld : disc.oldFlows = number :: rest)
    (leaves : ∀ flow, (change flow).queueDisc = flow.queueDisc) (stays : ∀ flow, (change flow).status = flow.status) :
    Moves number disc { disc.modifyClass number change with oldFlows := rest ++ [number] } := by
  have once := consistent.once
  rw [listed, noNew, isOld] at once
  have status : (disc.modifyClass number change).statusAt number = some .oldFlow := by
    rw [statusAt_modifyClass stays]
    exact (consistent.old number).mp (by rw [isOld]; exact mem_cons_self)
  apply Moves.of_status leaves status
  · change (disc.newFlows ++ (rest ++ [number])).Nodup
    rw [noNew]
    exact (perm_append_singleton number rest).nodup_iff.mpr once
  · intro other ne
    rw [isOld, mem_append, mem_singleton, mem_cons, or_comm]
    exact ⟨Iff.rfl, Iff.rfl⟩
  · change number ∈ disc.newFlows ↔ _
    rw [noNew]
    exact iff_of_false not_mem_nil (by simp)
  · exact iff_of_true (by simp) rfl
  · simp

/-- The first of the old flows leaves the lists; it has been found empty. -/
theorem Consistent.oldToInactive (noNew : disc.newFlows = []) (isOld : disc.oldFlows = number :: rest)
    (empty : disc.queueAt number = []) (leaves : ∀ flow, (change flow).queueDisc = flow.queueDisc)
    (stops : ∀ flow, (change flow).status = .inactive) :
    Moves number disc { disc.modifyClass number change with oldFlows := rest } := by
  have once := consistent.once
  rw [listed, noNew, isOld] at once
  obtain ⟨notLater, onceRest⟩ := nodup_cons.mp once
  obtain ⟨flow, found⟩ := @Consistent.found disc number consistent (by rw [listed, isOld]; simp)
  apply Moves.of_status leaves (by rw [statusAt_of_found (modifyClass_self found), stops])
  · change (disc.newFlows ++ rest).Nodup
    rw [noNew]
    exact onceRest
  · intro other ne
    rw [isOld, mem_cons]
    exact ⟨Iff.rfl, (or_iff_right ne).symm⟩
  · change number ∈ disc.newFlows ↔ _
    rw [noNew]
    exact iff_of_false not_mem_nil (by simp)
  · exact iff_of_false notLater (by simp)
  · exact fun notEmpty => absurd empty notEmpty

end Front

/-- The queue of a flow may change, but there are only packets in it while the flow is listed. -/
theorem Consistent.setQueueDisc (consistent : disc.Consistent) (found : disc.classes[number]? = some flow)
    {queueDisc : CoDelQueueDisc} (isListed : queueDisc.queue ≠ [] -> number ∈ disc.listed) :
    (disc.setQueueDisc number queueDisc).Consistent where
  once := consistent.once
  new := by
    intro other
    rw [statusAt_setQueueDisc]
    exact consistent.new other
  old := by
    intro other
    rw [statusAt_setQueueDisc]
    exact consistent.old other
  backlog := by
    intro other notEmpty
    by_cases same : number = other
    · subst same
      rw [queueAt_setQueueDisc found] at notEmpty
      exact isListed notEmpty
    · rw [queueAt_setQueueDisc_ne same] at notEmpty
      exact consistent.backlog other notEmpty
  counted := by
    have total := @total_setQueueDisc disc number flow queueDisc found
    change disc.nPackets + queueDisc.queue.length - (disc.queueAt number).length = _
    rw [consistent.counted, queueAt_of_found found]
    omega

/-! ## Credit -/

def deficitAt (disc : FqCoDelQueueDisc) (number : Nat) : Int :=
  (disc.classes[number]?.map FqCoDelFlow.deficit).getD 0

/-- The credit a flow still needs before it is served. -/
def debt (disc : FqCoDelQueueDisc) (number : Nat) : Nat :=
  (1 - disc.deficitAt number).toNat

/-- What every round brings down. -/
def roundsLeft (disc : FqCoDelQueueDisc) : Nat :=
  2 * disc.newFlows.length + disc.oldFlows.length + (disc.listed.map disc.debt).sum

theorem deficitAt_of_found (found : disc.classes[number]? = some flow) : disc.deficitAt number = flow.deficit := by
  rw [deficitAt, found]
  rfl

theorem debt_modifyClass_ne (ne : number ≠ other) : (disc.modifyClass number change).debt other = disc.debt other := by
  rw [debt, debt, deficitAt, deficitAt, modifyClass_ne ne]

theorem sum_debt_modifyClass {flows : List Nat} (others : number ∉ flows) :
    (flows.map (disc.modifyClass number change).debt).sum = (flows.map disc.debt).sum := by
  congr 1
  apply map_congr_left
  intro other mem
  exact debt_modifyClass_ne fun same => others (same ▸ mem)

section RoundsLeft

variable {rest : List Nat} (once : disc.listed.Nodup)
include once

theorem roundsLeft_lt {others back newFlows oldFlows : List Nat} (front : disc.listed = number :: others)
    (after : newFlows ++ oldFlows = others ++ back)
    (less : 2 * newFlows.length + oldFlows.length + (back.map (disc.modifyClass number change).debt).sum <
      2 * disc.newFlows.length + disc.oldFlows.length + disc.debt number) :
    roundsLeft { disc.modifyClass number change with newFlows, oldFlows } < disc.roundsLeft := by
  rw [front] at once
  have same := @sum_debt_modifyClass disc number change _ (nodup_cons.mp once).1
  change 2 * newFlows.length + oldFlows.length +
    ((newFlows ++ oldFlows).map (disc.modifyClass number change).debt).sum < _
  rw [after, map_append, sum_append, same, roundsLeft, front, map_cons, sum_cons]
  omega

theorem roundsLeft_newToOld (isNew : disc.newFlows = number :: rest)
    (credit : (disc.modifyClass number change).debt number ≤ disc.debt number) :
    roundsLeft { disc.modifyClass number change with newFlows := rest, oldFlows := disc.oldFlows ++ [number] } <
      disc.roundsLeft := by
  apply roundsLeft_lt once (by rw [listed, isNew]; rfl) (append_assoc _ _ _).symm
  simp only [isNew, length_append, length_cons, length_nil, map_cons, map_nil, sum_cons, sum_nil]
  omega

theorem roundsLeft_oldToEnd (noNew : disc.newFlows = []) (isOld : disc.oldFlows = number :: rest)
    (credit : (disc.modifyClass number change).debt number < disc.debt number) :
    roundsLeft { disc.modifyClass number change with oldFlows := rest ++ [number] } < disc.roundsLeft := by
  have after : disc.newFlows ++ (rest ++ [number]) = rest ++ [number] := by rw [noNew, nil_append]
  apply roundsLeft_lt once (by rw [listed, noNew, isOld]; rfl) after
  simp only [isOld, length_append, length_cons, length_nil, map_cons, map_nil, sum_cons, sum_nil]
  omega

theorem roundsLeft_oldToInactive (noNew : disc.newFlows = []) (isOld : disc.oldFlows = number :: rest) :
    roundsLeft { disc.modifyClass number change with oldFlows := rest } < disc.roundsLeft := by
  have after : disc.newFlows ++ rest = rest ++ [] := by rw [noNew, append_nil, nil_append]
  apply roundsLeft_lt once (by rw [listed, noNew, isOld]; rfl) after
  simp only [isOld, length_cons, map_nil, sum_nil]
  omega

end RoundsLeft

/-! ## Rounds -/

/-- The bytes of each queue can be counted. -/
def BytesFit (disc : FqCoDelQueueDisc) : Prop :=
  ∀ number, totalBytes (disc.queueAt number) < 2 ^ 32

theorem BytesFit.of_suffix {after : FqCoDelQueueDisc} (fit : disc.BytesFit)
    (suffixes : ∀ number, after.queueAt number <:+ disc.queueAt number) : after.BytesFit :=
  fun number => Nat.lt_of_le_of_lt (totalBytes_le_of_suffix (suffixes number)) (fit number)

/-- A packet leaves one queue, those before it have been dropped, and the other queues are as they
were. -/
structure Takes (before : FqCoDelQueueDisc) (item : QueueDiscItem) (after : FqCoDelQueueDisc) : Prop where
  flow : ∃ number dropped taken, before.queueAt number = dropped ++ taken :: after.queueAt number ∧
    SamePacket item taken ∧ ∀ other, other ≠ number -> after.queueAt other = before.queueAt other
  flowsIndices : after.flowsIndices = before.flowsIndices
  tags : after.tags = before.tags
  length : after.classes.length = before.classes.length
  nPackets : after.nPackets ≤ before.nPackets

theorem Takes.of_same {before after : FqCoDelQueueDisc} {item : QueueDiscItem} (takes : Takes disc item after)
    (same : SameQueues before disc) : Takes before item after where
  flow := by
    obtain ⟨number, dropped, taken, split, samePacket, others⟩ := takes.flow
    refine ⟨number, dropped, taken, by rw [← same.queueAt, split], samePacket, fun other ne => ?_⟩
    rw [others other ne, same.queueAt]
  flowsIndices := takes.flowsIndices.trans same.flowsIndices
  tags := takes.tags.trans same.tags
  length := takes.length.trans same.length
  nPackets := Nat.le_trans takes.nPackets (Nat.le_of_eq same.nPackets)

/-- What a round can do. -/
inductive Goes (disc : FqCoDelQueueDisc) : Round -> Prop where
  | again {next} (consistent : next.Consistent) (same : SameQueues disc next)
      (less : next.roundsLeft < disc.roundsLeft) :
      Goes disc (.again next)
  | item {item after} (consistent : after.Consistent) (takes : Takes disc item after) :
      Goes disc (.done (some item) after)
  | nothing (empty : disc.listed = []) : Goes disc (.done none disc)

/-- Credit and what has been paid leave the lists alone. -/
theorem Consistent.increaseDeficit (consistent : disc.Consistent) (deficit : Int) :
    (disc.modifyClass number fun flow => flow.increaseDeficit deficit).Consistent := by
  have status := @statusAt_modifyClass disc number (fun flow => flow.increaseDeficit deficit) fun _ => rfl
  have queue := @queueAt_modifyClass disc number (fun flow => flow.increaseDeficit deficit) fun _ => rfl
  have total := @total_modifyClass disc number (fun flow => flow.increaseDeficit deficit) fun _ => rfl
  refine ⟨consistent.once, fun other => ?_, fun other => ?_, fun other => ?_, ?_⟩
  · rw [status]
    exact consistent.new other
  · rw [status]
    exact consistent.old other
  · rw [queue]
    exact consistent.backlog other
  · rw [total]
    exact consistent.counted

theorem SameQueues.setQueueDisc (found : disc.classes[number]? = some flow) {queueDisc : CoDelQueueDisc}
    (same : queueDisc.queue = flow.queueDisc.queue) : SameQueues disc (disc.setQueueDisc number queueDisc) where
  queueAt := by
    intro other
    by_cases isOther : number = other
    · subst isOther
      rw [queueAt_setQueueDisc found, queueAt_of_found found, same]
    · exact queueAt_setQueueDisc_ne isOther
  flowsIndices := rfl
  tags := rfl
  length := length_modify _ _ _
  nPackets := by
    change disc.nPackets + queueDisc.queue.length - (disc.queueAt number).length = _
    rw [queueAt_of_found found, same]
    exact Nat.add_sub_cancel _ _

theorem roundsLeft_setQueueDisc (queueDisc : CoDelQueueDisc) :
    (disc.setQueueDisc number queueDisc).roundsLeft = disc.roundsLeft := by
  have debt : (disc.setQueueDisc number queueDisc).debt = disc.debt := by
    ext other
    change (1 - ((disc.classes.modify number _)[other]?.map FqCoDelFlow.deficit).getD 0).toNat = _
    rw [getElem?_modify]
    split
    · rw [Option.map_map]
      rfl
    · rfl
  rw [roundsLeft, debt]
  rfl

/-- The flow at the front: the first new one, or the first old one where there is none. -/
def IsFront (disc : FqCoDelQueueDisc) (number : Nat) : Prop :=
  (∃ rest, disc.newFlows = number :: rest) ∨ disc.newFlows = [] ∧ ∃ rest, disc.oldFlows = number :: rest

theorem IsFront.mem_listed (isFront : disc.IsFront number) : number ∈ disc.listed := by
  rcases isFront with ⟨rest, isNew⟩ | ⟨noNew, rest, isOld⟩
  · rw [listed, isNew]
    simp
  · rw [listed, noNew, isOld]
    simp

theorem retire_goes (consistent : disc.Consistent) (isFront : disc.IsFront number) (empty : disc.queueAt number = []) :
    Goes disc (.again (disc.retire number)) := by
  obtain ⟨flow, found⟩ := consistent.found isFront.mem_listed
  rcases isFront with ⟨rest, isNew⟩ | ⟨noNew, rest, isOld⟩
  · have isRetired : disc.retire number = { disc.modifyClass number fun flow => flow.setStatus .oldFlow with
        newFlows := rest, oldFlows := disc.oldFlows ++ [number] } := by
      rw [retire, isNew]
    have moves : Moves number disc { disc.modifyClass number fun flow => flow.setStatus .oldFlow with
        newFlows := rest, oldFlows := disc.oldFlows ++ [number] } :=
      consistent.newToOld isNew (fun _ => rfl) fun _ => rfl
    rw [isRetired]
    refine .again (moves.consistent consistent) moves.same (roundsLeft_newToOld consistent.once isNew ?_)
    rw [debt, debt, deficitAt_of_found (modifyClass_self found), deficitAt_of_found found]
    rfl
  · have isRetired : disc.retire number =
        { disc.modifyClass number fun flow => flow.setStatus .inactive with oldFlows := rest } := by
      rw [retire, noNew, isOld]
      rfl
    have moves : Moves number disc
        { disc.modifyClass number fun flow => flow.setStatus .inactive with oldFlows := rest } :=
      consistent.oldToInactive noNew isOld empty (fun _ => rfl) fun _ => rfl
    rw [isRetired]
    exact .again (moves.consistent consistent) moves.same (roundsLeft_oldToInactive consistent.once noNew isOld)

theorem serve_empty (consistent : disc.Consistent) (isFront : disc.IsFront number)
    (found : disc.classes[number]? = some flow) (empty : flow.queueDisc.queue = []) :
    ∃ result, disc.serve config time number = some result ∧ Goes disc result := by
  obtain ⟨queueDisc, isDequeued, isEmpty⟩ := @CoDelQueueDisc.dequeue_nil config.codel time _ empty
  have same := SameQueues.setQueueDisc found (isEmpty.trans empty.symm)
  have isConsistent : (disc.setQueueDisc number queueDisc).Consistent :=
    consistent.setQueueDisc found fun notEmpty => absurd isEmpty notEmpty
  have rounds : (disc.setQueueDisc number queueDisc).roundsLeft = disc.roundsLeft := roundsLeft_setQueueDisc queueDisc
  have goes := retire_goes isConsistent isFront (by rw [queueAt_setQueueDisc found, isEmpty])
  refine ⟨.again ((disc.setQueueDisc number queueDisc).retire number), ?_, ?_⟩
  · rw [serve, found, bind_some, isDequeued]
    rfl
  · cases goes with
    | again stillConsistent again less =>
      rw [rounds] at less
      exact .again stillConsistent (same.trans again) less

theorem serve_takes (pos : 0 < config.codel.minBytes) (fit : disc.BytesFit) (consistent : disc.Consistent)
    (found : disc.classes[number]? = some flow) (notEmpty : flow.queueDisc.queue ≠ []) :
    ∃ result, disc.serve config time number = some result ∧ Goes disc result := by
  obtain ⟨item, queueDisc, dropped, taken, isDequeued, split, samePacket⟩ :=
    @CoDelQueueDisc.dequeue_pops config.codel time _ pos (by rw [← queueAt_of_found found]; exact fit number) notEmpty
  have isConsistent : (disc.setQueueDisc number queueDisc).Consistent :=
    consistent.setQueueDisc found fun _ => consistent.backlog number (by rwa [queueAt_of_found found])
  have leaves := @queueAt_modifyClass (disc.setQueueDisc number queueDisc) number
    (fun flow => flow.increaseDeficit (-item.size)) fun _ => rfl
  refine ⟨.done (some item) ((disc.setQueueDisc number queueDisc).modifyClass number
    fun flow => flow.increaseDeficit (-item.size)), ?_,
      .item (isConsistent.increaseDeficit _) ⟨⟨number, dropped, taken, ?_,
      samePacket, ?_⟩, rfl, rfl, ?_, ?_⟩⟩
  · rw [serve, found, bind_some, isDequeued]
    rfl
  · rw [leaves, queueAt_setQueueDisc found, queueAt_of_found found]
    exact split
  · intro other ne
    rw [leaves, queueAt_setQueueDisc_ne (Ne.symm ne)]
  · rw [modifyClass, length_modify]
    exact length_modify _ _ _
  · change disc.nPackets + queueDisc.queue.length - (disc.queueAt number).length ≤ _
    rw [queueAt_of_found found, split, length_append, length_cons]
    omega

theorem serve_goes (pos : 0 < config.codel.minBytes) (fit : disc.BytesFit) (consistent : disc.Consistent)
    (isFront : disc.IsFront number)
    (found : disc.classes[number]? = some flow) :
    ∃ result, disc.serve config time number = some result ∧ Goes disc result := by
  by_cases empty : flow.queueDisc.queue = []
  · exact serve_empty consistent isFront found empty
  · exact serve_takes pos fit consistent found empty

/-- The quantum is positive as it is added to a deficit, no child drops its last packet, and one
packet too many can be counted. -/
structure Valid (config : FqCoDelConfig) : Prop where
  quantum : 0 < config.quantum ∧ config.quantum < 2 ^ 31
  minBytes : 0 < config.codel.minBytes
  setWays : 0 < config.setWays
  maxSize : config.maxSize + 1 < 2 ^ 32

theorem toInt32_eq {value : Nat} (small : value < 2 ^ 31) : FqCoDelFlow.toInt32 value = value := by
  rw [FqCoDelFlow.toInt32, Int.bmod_def]
  omega

section

variable (valid : Valid config)
include valid

/-- A quantum brings a flow in debt nearer to being served. -/
theorem debt_increaseDeficit (found : disc.classes[number]? = some flow) (inDebt : flow.deficit ≤ 0)
    (pays : ∀ flow, (change flow).deficit = flow.deficit + FqCoDelFlow.toInt32 config.quantum) :
    (disc.modifyClass number change).debt number < disc.debt number := by
  have quantum := valid.quantum
  rw [debt, debt, deficitAt_of_found (modifyClass_self found), deficitAt_of_found found, pays,
    toInt32_eq valid.quantum.2]
  omega

variable {rest : List Nat} {fuel : Nat} {result : Option QueueDiscItem × FqCoDelQueueDisc}

theorem newRound_goes (fit : disc.BytesFit) (consistent : disc.Consistent) (isNew : disc.newFlows = number :: rest) :
    ∃ result, disc.newRound config time number rest = some result ∧ Goes disc result := by
  have isFront : disc.IsFront number := .inl ⟨rest, isNew⟩
  obtain ⟨flow, found⟩ := consistent.found isFront.mem_listed
  rw [newRound, found, bind_some]
  by_cases inDebt : flow.deficit ≤ 0
  · have moves : Moves number disc
        { disc.modifyClass number fun flow => (flow.increaseDeficit config.quantum).setStatus .oldFlow with
          newFlows := rest, oldFlows := disc.oldFlows ++ [number] } :=
      consistent.newToOld isNew (fun _ => rfl) fun _ => rfl
    have less := @debt_increaseDeficit _ _ _ _ (fun flow => (flow.increaseDeficit config.quantum).setStatus .oldFlow)
      valid found inDebt fun _ => rfl
    refine ⟨_, if_pos inDebt, .again (moves.consistent consistent) moves.same ?_⟩
    exact roundsLeft_newToOld consistent.once isNew (Nat.le_of_lt less)
  · rw [if_neg inDebt]
    exact serve_goes valid.minBytes fit consistent isFront found

theorem oldRound_goes (fit : disc.BytesFit) (consistent : disc.Consistent)
    (noNew : disc.newFlows = []) (isOld : disc.oldFlows = number :: rest) :
    ∃ result, disc.oldRound config time number rest = some result ∧ Goes disc result := by
  have isFront : disc.IsFront number := .inr ⟨noNew, rest, isOld⟩
  obtain ⟨flow, found⟩ := consistent.found isFront.mem_listed
  rw [oldRound, found, bind_some]
  by_cases inDebt : flow.deficit ≤ 0
  · have moves : Moves number disc
        { disc.modifyClass number fun flow => flow.increaseDeficit config.quantum with oldFlows := rest ++ [number] } :=
      consistent.oldToEnd noNew isOld (fun _ => rfl) fun _ => rfl
    have less := @debt_increaseDeficit _ _ _ _ (fun flow => flow.increaseDeficit config.quantum) valid found inDebt
      fun _ => rfl
    refine ⟨_, if_pos inDebt, .again (moves.consistent consistent) moves.same ?_⟩
    exact roundsLeft_oldToEnd consistent.once noNew isOld less
  · rw [if_neg inDebt]
    exact serve_goes valid.minBytes fit consistent isFront found

theorem round_goes (fit : disc.BytesFit) (consistent : disc.Consistent) :
    ∃ result, disc.round config time = some result ∧ Goes disc result := by
  cases isNew : disc.newFlows with
  | cons number rest =>
    have isRound : disc.round config time = disc.newRound config time number rest := by rw [round, isNew]
    rw [isRound]
    exact newRound_goes valid fit consistent isNew
  | nil =>
    cases isOld : disc.oldFlows with
    | cons number rest =>
      have isRound : disc.round config time = disc.oldRound config time number rest := by rw [round, isNew, isOld]
      rw [isRound]
      exact oldRound_goes valid fit consistent isNew isOld
    | nil =>
      have isRound : disc.round config time = some (.done none disc) := by rw [round, isNew, isOld]
      exact ⟨_, isRound, .nothing (by rw [listed, isNew, isOld]; rfl)⟩

/-- What `DoDequeue` does: a packet is taken, or there is none. -/
inductive Dequeues (disc : FqCoDelQueueDisc) : Option QueueDiscItem -> FqCoDelQueueDisc -> Prop where
  | item {item after} (takes : Takes disc item after) : Dequeues disc (some item) after
  | nothing {after} (same : SameQueues disc after) (empty : ∀ number, after.queueAt number = []) :
      Dequeues disc none after

theorem doDequeue_spec (fit : disc.BytesFit) (consistent : disc.Consistent) :
    ∃ item after, (∀ fuel, disc.roundsLeft < fuel -> doDequeue config time fuel disc = some (item, after)) ∧
      after.Consistent ∧ Dequeues disc item after := by
  induction left : disc.roundsLeft using Nat.strong_induction_on generalizing disc with
  | h count ih =>
    have rounds : ∃ result, disc.round config time = some result ∧ Goes disc result := round_goes valid fit consistent
    obtain ⟨result, isResult, goes⟩ := rounds
    -- there is fuel for this round
    have unfolds : ∀ fuel, count < fuel -> ∃ less, fuel = less + 1 ∧ count ≤ less :=
      fun fuel enough => ⟨fuel - 1, by omega, by omega⟩
    cases goes with
    | @again next isConsistent same less =>
      obtain ⟨item, after, isDequeued, still, dequeues⟩ :=
        ih next.roundsLeft (left ▸ less)
          (fit.of_suffix fun number => same.queueAt number ▸ suffix_refl _) isConsistent rfl
      refine ⟨item, after, fun fuel enough => ?_, still, ?_⟩
      · obtain ⟨fuel, rfl, atLeast⟩ := unfolds fuel enough
        rw [doDequeue, isResult]
        exact isDequeued fuel (by omega)
      · cases dequeues with
        | item takes => exact .item (takes.of_same same)
        | nothing again empty => exact .nothing (same.trans again) empty
    | @item item after isConsistent takes =>
      refine ⟨some item, after, fun fuel enough => ?_, isConsistent, .item takes⟩
      obtain ⟨fuel, rfl, -⟩ := unfolds fuel enough
      rw [doDequeue, isResult, bind_some]
    | nothing empty =>
      refine ⟨none, disc, fun fuel enough => ?_, consistent, .nothing (SameQueues.refl disc) fun number => ?_⟩
      · obtain ⟨fuel, rfl, -⟩ := unfolds fuel enough
        rw [doDequeue, isResult, bind_some]
      · by_contra notEmpty
        have mem := consistent.backlog number notEmpty
        rw [empty] at mem
        cases mem

end

variable {fuel : Nat} {result : Option QueueDiscItem × FqCoDelQueueDisc}

theorem doDequeue_succ
    (returns : doDequeue config time fuel disc = some result) :
    doDequeue config time (fuel + 1) disc = some result := by
  induction fuel generalizing disc with
  | zero => cases returns
  | succ fuel ih =>
    rw [doDequeue] at returns ⊢
    obtain ⟨round, isRound, rest⟩ := bind_eq_some_iff.mp returns
    rw [isRound]
    cases round with
    | again next => exact ih rest
    | done item after => exact rest

/-- Whatever the bound on the rounds is, the result is the same if it is enough. -/
theorem doDequeue_eq {also : Option QueueDiscItem × FqCoDelQueueDisc}
    (returns : doDequeue config time fuel disc = some result)
    (alsoReturns : doDequeue config time other disc = some also) : result = also := by
  have more : ∀ {fuel result} (count : Nat), doDequeue config time fuel disc = some result ->
      doDequeue config time (fuel + count) disc = some result := by
    intro fuel result count returns
    induction count with
    | zero => exact returns
    | succ count ih => exact doDequeue_succ ih
  have first := more other returns
  rw [Nat.add_comm, more fuel alsoReturns] at first
  exact (some.inj first).symm

end Ns3.TrafficControl.FqCoDelQueueDisc
