import Ns3.TrafficControl.FlowQueues

/-!
# The order of the packets of a flow

The packets of one hash stay in one queue as long as no queue before it in the set is taken instead,
so they leave in the order in which they came. A queue that is free is found before the one that
carries the tag if it comes first.
-/

namespace Ns3.TrafficControl.FqCoDel

open Semantics FqCoDelQueueDisc List Option Nat

variable {config : FqCoDelConfig} {state : State} {time : Nat} {item : QueueDiscItem} {flowHash : Nat}

/-- There are packets of a hash in an active queue that carries its tag. -/
def Tagged (disc : FqCoDelQueueDisc) (flowHash j : Nat) : Prop :=
  disc.tags j = some flowHash ∧ ∃ number, disc.flowsIndices j = some number ∧ number ∈ disc.listed ∧
    ∃ queued ∈ disc.queueAt number, queued.flowHash = some flowHash

/-- A packet goes to the queue in which there are packets of its hash. -/
def SameQueue (config : FqCoDelConfig) (state : State) : Action -> Prop
  | .enqueue _ item => ∀ flowHash j, item.flowHash = some flowHash -> config.enableSetAssociativeHash ->
      Tagged state.disc flowHash j -> state.disc.indexOf config flowHash = j
  | .dequeue _ _ => True

def Fits (config : FqCoDelConfig) (state : State) : Action -> Prop
  | .enqueue _ item => state.disc.Fits config item
  | .dequeue _ _ => True

instance (action : Action) : Decidable (Fits config state action) :=
  match action with
  | .enqueue _ item => inferInstanceAs (Decidable (state.disc.Fits config item))
  | .dequeue _ _ => .isTrue trivial

structure Sound (config : FqCoDelConfig) (state : State) : Prop where
  lists : state.disc.Consistent
  limited : state.disc.nPackets ≤ config.maxSize
  enqueue : ∀ time item, state.disc.Fits config item -> ∃ after, state.disc.doEnqueue config time item = some after
  /-- There is a bound on the rounds, and nothing is left if there is no packet. -/
  dequeue : ∀ time, ∃ bound item after,
    (∀ fuel, bound < fuel -> doDequeue config time fuel state.disc = some (item, after)) ∧
      (item = none -> ∀ number, after.queueAt number = [])
  order : state.departed.Pairwise fun earlier later => ∀ flowHash, earlier.flowHash = some flowHash ->
    later.flowHash = some flowHash -> flowHash ∉ state.overwritten -> earlier.arrival < later.arrival

structure Ordered (config : FqCoDelConfig) (state : State) : Prop where
  lists : state.disc.Consistent
  indexed : state.disc.Indexed
  sized : state.disc.Sized
  bytesFit : state.disc.BytesFit
  limited : state.disc.nPackets ≤ config.maxSize
  inSet : config.enableSetAssociativeHash -> ∀ j flowHash, state.disc.tags j = some flowHash ->
    j ∈ range' (outerHash config flowHash) config.setWays
  /-- Where the packets of a hash are. -/
  home : ∀ j number, state.disc.flowsIndices j = some number -> ∀ queued ∈ state.disc.queueAt number, ∀ flowHash,
    queued.flowHash = some flowHash -> flowHash ∉ state.overwritten ->
      if config.enableSetAssociativeHash then state.disc.tags j = some flowHash else j = flowHash % config.flows
  together : ∀ number other, ∀ queued ∈ state.disc.queueAt number, ∀ also ∈ state.disc.queueAt other, ∀ flowHash,
    queued.flowHash = some flowHash -> also.flowHash = some flowHash -> flowHash ∉ state.overwritten -> number = other
  sorted : ∀ number, (state.disc.queueAt number).Pairwise fun earlier later => earlier.arrival < later.arrival
  fresh : ∀ number, ∀ queued ∈ state.disc.queueAt number, queued.arrival < state.arrivals
  departedFresh : ∀ gone ∈ state.departed, gone.arrival < state.arrivals
  behind : ∀ gone ∈ state.departed, ∀ number, ∀ queued ∈ state.disc.queueAt number, ∀ flowHash,
    gone.flowHash = some flowHash -> queued.flowHash = some flowHash -> flowHash ∉ state.overwritten ->
      gone.arrival < queued.arrival
  order : state.departed.Pairwise fun earlier later => ∀ flowHash, earlier.flowHash = some flowHash ->
    later.flowHash = some flowHash -> flowHash ∉ state.overwritten -> earlier.arrival < later.arrival

theorem Ordered.initial : Ordered config {} where
  lists := ⟨nodup_nil, by simp [statusAt], by simp [statusAt], by simp [queueAt], rfl⟩
  indexed := ⟨nofun, nofun, nofun⟩
  sized := by simp [Sized, queueAt]
  bytesFit := by simp [BytesFit, queueAt, totalBytes]
  limited := zero_le _
  inSet := nofun
  home := nofun
  together := by simp [queueAt]
  sorted := by simp [queueAt]
  fresh := by simp [queueAt]
  departedFresh := nofun
  behind := nofun
  order := List.Pairwise.nil

variable {after : FqCoDelQueueDisc} {number : Nat} {queued : QueueDiscItem}

section

variable (ordered : Ordered config state)
include ordered

theorem Ordered.tagged {j : Nat}
    (isNumber : state.disc.flowsIndices j = some number) (mem : queued ∈ state.disc.queueAt number)
    (isHash : queued.flowHash = some flowHash) (kept : flowHash ∉ state.overwritten)
    (enabled : config.enableSetAssociativeHash) : Tagged state.disc flowHash j := by
  have isTag := ordered.home j number isNumber queued mem flowHash isHash kept
  rw [if_pos enabled] at isTag
  exact ⟨isTag, number, isNumber, ordered.lists.backlog number (ne_nil_of_mem mem), queued, mem, isHash⟩

/-- The queue that a packet is put to has no other flow's packets, unless these have lost their tag.
-/
theorem Ordered.only_hash {other : Nat}
    (isHash : item.flowHash = some flowHash) (enabled : config.enableSetAssociativeHash)
    (isNumber : state.disc.flowsIndices (state.disc.indexOf config flowHash) = some number)
    (mem : queued ∈ state.disc.queueAt number) (isOther : queued.flowHash = some other)
    (kept : other ∉ overwrites config state.disc item ++ state.overwritten) : other = flowHash := by
  rw [mem_append, not_or] at kept
  obtain ⟨isTag, -, -, listed, -⟩ := ordered.tagged isNumber mem isOther kept.2 enabled
  have notOverwritten := kept.1
  rw [indexOf, if_pos enabled, setAssociativeHash] at isTag isNumber
  rw [overwrites, isHash] at notOverwritten
  dsimp only at notOverwritten
  cases isFirst : state.disc.firstUsable config flowHash with
  | none =>
    rw [isFirst, getD_none] at isTag
    rw [if_pos ⟨enabled, isFirst⟩, isTag] at notOverwritten
    exact absurd (mem_toList.mpr rfl) notOverwritten
  | some i =>
    rw [isFirst, getD_some] at isTag isNumber
    have usable := find?_some isFirst
    have active : state.disc.statusAt number ≠ some .inactive := by
      intro inactive
      have isListed := ordered.lists.backlog number (ne_nil_of_mem mem)
      rw [FqCoDelQueueDisc.listed, mem_append, ordered.lists.new, ordered.lists.old, inactive] at isListed
      simp at isListed
    rw [FqCoDelQueueDisc.usable, isNumber, isTag] at usable
    simpa [active] using usable

theorem Ordered.enqueued (pos : 0 < config.setWays)
    (isHash : item.flowHash = some flowHash) (sized : 0 < item.size)
    (same : SameQueue config state (.enqueue time item))
    (enqueued : Enqueued config state.disc flowHash number
      { item with arrival := state.arrivals, timeStamp := time } after) :
    Ordered config { state with
      disc := after
      arrivals := state.arrivals + 1
      overwritten := overwrites config state.disc item ++ state.overwritten } := by
  have puts := enqueued.puts
  have notOverwritten : ∀ {other : Nat}, other ∉ overwrites config state.disc item ++ state.overwritten ->
      other ∉ state.overwritten := fun kept mem => kept (mem_append_right _ mem)
  have tags : ∀ j, after.tags j = if config.enableSetAssociativeHash ∧ j = state.disc.indexOf config flowHash then
    some flowHash else state.disc.tags j := by
    intro j
    rw [enqueued.tags, FqCoDelQueueDisc.tagged, indexOf]
    by_cases enabled : config.enableSetAssociativeHash
    · rw [if_pos enabled, if_pos enabled]
      simp [enabled, Function.update_apply]
    · rw [if_neg enabled, if_neg fun both => enabled both.1]
  -- the classes of packets that were queued before
  have classOf : ∀ {j other : Nat} {queued : QueueDiscItem}, after.flowsIndices j = some other ->
      queued ∈ state.disc.queueAt other -> state.disc.flowsIndices j = some other := by
    intro j other queued isOther mem
    by_cases isIndex : j = state.disc.indexOf config flowHash
    · subst isIndex
      cases enqueued.isNumber.symm.trans isOther
      cases known : state.disc.flowsIndices (state.disc.indexOf config flowHash) with
      | none =>
        rw [enqueued.new known] at mem
        cases mem
      | some known' => rw [enqueued.known known' known]
    · rw [← enqueued.others j isIndex]
      exact isOther
  -- a packet that was queued before is where the new one of its hash is put
  have joins : ∀ {other : Nat} {queued : QueueDiscItem}, queued ∈ state.disc.queueAt other ->
      queued.flowHash = some flowHash -> flowHash ∉ state.overwritten -> other = number := by
    intro other queued mem isSame kept
    have inside : other < state.disc.classes.length := by
      by_contra outside
      rw [queueAt_of_ge (Nat.le_of_not_lt outside)] at mem
      exact not_mem_nil mem
    obtain ⟨j, isOther⟩ := ordered.indexed.all other inside
    apply enqueued.known other
    by_cases enabled : config.enableSetAssociativeHash
    · rw [same flowHash j isHash enabled (ordered.tagged isOther mem isSame kept enabled)]
      exact isOther
    · have home := ordered.home j other isOther queued mem flowHash isSame kept
      rw [if_neg enabled] at home
      rw [indexOf, if_neg enabled, ← home]
      exact isOther
  refine ⟨enqueued.consistent, enqueued.indexed, puts.sized ordered.sized sized, enqueued.bytesFit,
    enqueued.limited, ?_, ?_, ?_, ?_, ?_,
    ?_, ?_, ?_⟩
  · intro enabled j other isTag
    rw [tags] at isTag
    split at isTag
    · rename_i isIndex
      cases isTag
      rw [isIndex.2, indexOf, if_pos enabled, setAssociativeHash]
      cases isFirst : state.disc.firstUsable config flowHash with
      | none => exact mem_range'_1.mpr ⟨Nat.le_refl _, Nat.lt_add_of_pos_right pos⟩
      | some i => exact mem_of_find?_eq_some isFirst
    · exact ordered.inSet enabled j other isTag
  · intro j other isOther queued mem hash isQueued kept
    rcases puts.mem mem with isOld | ⟨rfl, rfl⟩
    · have isBefore := classOf isOther isOld
      have home := ordered.home j other isBefore queued isOld hash isQueued (notOverwritten kept)
      by_cases enabled : config.enableSetAssociativeHash
      · rw [if_pos enabled] at home
        rw [if_pos enabled, tags]
        split
        · rename_i isIndex
          rw [isIndex.2] at isBefore
          exact congrArg some (ordered.only_hash isHash enabled isBefore isOld isQueued kept).symm
        · exact home
      · rw [if_neg enabled] at home
        rw [if_neg enabled]
        exact home
    · cases isHash.symm.trans isQueued
      have isIndex := enqueued.indexed.injective _ _ _ isOther enqueued.isNumber
      by_cases enabled : config.enableSetAssociativeHash
      · rw [if_pos enabled, tags, if_pos ⟨enabled, isIndex⟩]
      · rw [if_neg enabled, isIndex, indexOf, if_neg enabled]
  · intro first second queued mem also isAlso hash isQueued isSame kept
    have stays := notOverwritten kept
    rcases puts.mem mem with isOld | ⟨rfl, rfl⟩ <;> rcases puts.mem isAlso with alsoOld | ⟨rfl, rfl⟩
    · exact ordered.together first second queued isOld also alsoOld hash isQueued isSame stays
    · cases isHash.symm.trans isSame
      exact joins isOld isQueued stays
    · cases isHash.symm.trans isQueued
      exact (joins alsoOld isSame stays).symm
    · rfl
  · intro other
    by_cases isNumber : other = number
    · subst isNumber
      obtain ⟨added, isAdded, suffix⟩ := puts.queue
      apply List.Pairwise.sublist suffix.sublist
      apply pairwise_append.mpr ⟨ordered.sorted other, ?_, fun queued isQueued last isLast => ?_⟩
      · rcases isAdded with rfl | rfl
        · exact List.Pairwise.nil
        · exact pairwise_singleton _ _
      · rcases isAdded with rfl | rfl
        · cases isLast
        · rw [mem_singleton.mp isLast]
          exact ordered.fresh other queued isQueued
    · exact (ordered.sorted other).sublist (puts.others other isNumber).sublist
  · intro other queued mem
    rcases puts.mem mem with isOld | ⟨-, rfl⟩
    · exact Nat.lt_succ_of_lt (ordered.fresh other queued isOld)
    · exact Nat.lt_succ_self _
  · exact fun gone isGone => Nat.lt_succ_of_lt (ordered.departedFresh gone isGone)
  · intro gone isGone other queued mem hash isGoneHash isQueued kept
    rcases puts.mem mem with isOld | ⟨-, rfl⟩
    · exact ordered.behind gone isGone other queued isOld hash isGoneHash isQueued (notOverwritten kept)
    · exact ordered.departedFresh gone isGone
  · exact ordered.order.imp fun less hash isEarlier isLater kept => less hash isEarlier isLater (notOverwritten kept)

theorem Ordered.unclassified : Ordered config { state with arrivals := state.arrivals + 1 } where
  lists := ordered.lists
  indexed := ordered.indexed
  sized := ordered.sized
  bytesFit := ordered.bytesFit
  limited := ordered.limited
  inSet := ordered.inSet
  home := ordered.home
  together := ordered.together
  sorted := ordered.sorted
  fresh := fun number queued mem => lt_succ_of_lt (ordered.fresh number queued mem)
  departedFresh := fun gone mem => lt_succ_of_lt (ordered.departedFresh gone mem)
  behind := ordered.behind
  order := ordered.order

theorem Ordered.shrinks (lists : after.Consistent)
    (suffixes : ∀ number, after.queueAt number <:+ state.disc.queueAt number)
    (flowsIndices : after.flowsIndices = state.disc.flowsIndices) (tags : after.tags = state.disc.tags)
    (length : after.classes.length = state.disc.classes.length) (nPackets : after.nPackets ≤ state.disc.nPackets) :
    Ordered config { state with disc := after } where
  lists := lists
  indexed := ordered.indexed.of_same flowsIndices length
  sized := fun number queued mem => ordered.sized number queued ((suffixes number).mem mem)
  bytesFit := ordered.bytesFit.of_suffix suffixes
  limited := le_trans nPackets ordered.limited
  inSet := by
    rw [tags]
    exact ordered.inSet
  home := by
    rw [flowsIndices, tags]
    exact fun j number isNumber queued mem => ordered.home j number isNumber queued ((suffixes number).mem mem)
  together := fun number other queued mem also isAlso =>
    ordered.together number other queued ((suffixes number).mem mem) also ((suffixes other).mem isAlso)
  sorted := fun number => (ordered.sorted number).sublist (suffixes number).sublist
  fresh := fun number queued mem => ordered.fresh number queued ((suffixes number).mem mem)
  departedFresh := ordered.departedFresh
  behind := fun gone isGone number queued mem => ordered.behind gone isGone number queued ((suffixes number).mem mem)
  order := ordered.order

/-- A packet that leaves has those of its hash behind it. -/
theorem Ordered.takes (lists : after.Consistent)
    (takes : Takes state.disc item after) :
    Ordered config { state with disc := after, departed := state.departed ++ [item] } := by
  obtain ⟨number, dropped, taken, split, samePacket, others⟩ := takes.flow
  have suffixes : ∀ other, after.queueAt other <:+ state.disc.queueAt other := by
    intro other
    by_cases same : other = number
    · subst same
      exact ⟨dropped ++ [taken], by rw [split]; simp⟩
    · rw [others other same]
  have isTaken : taken ∈ state.disc.queueAt number := by
    rw [split]
    simp
  have sorted := ordered.sorted number
  rw [split] at sorted
  have later := (pairwise_cons.mp (pairwise_append.mp sorted).2.1).1
  obtain ⟨arrival, flowHash, -⟩ := samePacket
  have shrinks := ordered.shrinks lists suffixes takes.flowsIndices takes.tags takes.length takes.nPackets
  refine ⟨shrinks.lists, shrinks.indexed, shrinks.sized, shrinks.bytesFit, shrinks.limited,
    shrinks.inSet, shrinks.home, shrinks.together,
    shrinks.sorted, shrinks.fresh, ?_, ?_, ?_⟩
  · intro gone mem
    rcases mem_append.mp mem with isOld | isNew
    · exact ordered.departedFresh gone isOld
    · rw [mem_singleton.mp isNew, arrival]
      exact ordered.fresh number taken isTaken
  · intro gone mem other queued isQueued hash isGoneHash isHash kept
    rcases mem_append.mp mem with isOld | isNew
    · exact shrinks.behind gone isOld other queued isQueued hash isGoneHash isHash kept
    · rw [mem_singleton.mp isNew] at isGoneHash ⊢
      rw [flowHash] at isGoneHash
      obtain rfl := ordered.together other number queued ((suffixes other).mem isQueued) taken isTaken hash isHash
        isGoneHash kept
      rw [arrival]
      exact later queued isQueued
  · apply pairwise_append.mpr ⟨ordered.order, pairwise_singleton _ _, fun gone isGone last isLast => ?_⟩
    intro hash isGoneHash isHash kept
    rw [mem_singleton.mp isLast] at isHash ⊢
    rw [flowHash] at isHash
    rw [arrival]
    exact ordered.behind gone isGone number taken isTaken hash isGoneHash isHash kept

end

theorem Ordered.step (valid : Valid config) (ordered : Ordered config state) {action : Action}
    (fits : Fits config state action)
    (same : SameQueue config state action) {next : State} (moves : (system config).step state action = some next) :
    Ordered config next := by
  cases action with
  | enqueue time item =>
    obtain ⟨after, isAfter, rfl⟩ := map_eq_some_iff.mp moves
    cases isHash : item.flowHash with
    | none =>
      rw [doEnqueue, isHash] at isAfter
      cases isAfter
      rw [overwrites, isHash]
      exact ordered.unclassified
    | some flowHash =>
      obtain ⟨result, number, isResult, enqueued⟩ := @doEnqueue_spec config time _
        { item with arrival := state.arrivals } valid ordered.lists ordered.indexed ordered.sized ordered.bytesFit
        ordered.limited _ isHash ⟨fits.pos, fits.size, fits.room⟩
      cases isResult.symm.trans isAfter
      exact ordered.enqueued valid.setWays isHash fits.pos same enqueued
  | dequeue time fuel =>
    obtain ⟨result, isResult, rfl⟩ := map_eq_some_iff.mp moves
    obtain ⟨item, after, isDequeued, lists, dequeues⟩ :=
      @doDequeue_spec config time _ valid ordered.bytesFit ordered.lists
    obtain rfl := doDequeue_eq isResult (isDequeued _ (lt_succ_self _))
    cases dequeues with
    | item takes => exact ordered.takes lists takes
    | nothing same empty =>
      rw [toList_none, append_nil]
      exact ordered.shrinks lists (fun number => same.queueAt number ▸ suffix_refl _) same.flowsIndices same.tags
        same.length (le_of_eq same.nPackets)

theorem Ordered.sound (valid : Valid config) (ordered : Ordered config state) : Sound config state where
  lists := ordered.lists
  limited := ordered.limited
  enqueue := by
    intro time item fits
    cases isHash : item.flowHash with
    | none => exact ⟨state.disc, by rw [doEnqueue, isHash]⟩
    | some flowHash =>
      obtain ⟨after, -, isAfter, -⟩ := @doEnqueue_spec config time _ item valid ordered.lists ordered.indexed
        ordered.sized ordered.bytesFit ordered.limited _ isHash fits
      exact ⟨after, isAfter⟩
  dequeue := by
    intro time
    obtain ⟨item, after, isDequeued, -, dequeues⟩ := @doDequeue_spec config time _ valid ordered.bytesFit ordered.lists
    refine ⟨state.disc.roundsLeft, item, after, isDequeued, ?_⟩
    rintro rfl
    cases dequeues with
    | nothing same empty => exact empty
  order := ordered.order

def packet (flowHash : Nat) : Action :=
  .enqueue 0 { arrival := 0, flowHash := some flowHash, size := 100 }

end Ns3.TrafficControl.FqCoDel
