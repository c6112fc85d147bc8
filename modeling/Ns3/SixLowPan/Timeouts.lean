import Ns3.SixLowPan.Fragmentation

/-!
# The list of timeouts

One entry for each datagram that is pending, in the order in which they expire. The entries of the
reassemblies refer to those of the list, so forgetting a datagram takes both away and leaves the
others as they are.
-/

namespace Ns3.SixLowPan.Receiver

open Option AList

variable {Octet : Type} {config : ReceiverConfig Octet} {receiver : Receiver Octet} {key : FragmentKey}

/-- What evicting, completing and expiring have in common. -/
def forget (receiver : Receiver Octet) (key : FragmentKey) : Receiver Octet :=
  { receiver with
    fragments := receiver.fragments.erase key
    timeoutEventList := receiver.timeoutEventList.filter fun entry => entry.key ≠ key }

/-- The list of timeouts and the reassemblies belong together. -/
structure Listed (config : ReceiverConfig Octet) (receiver : Receiver Octet) : Prop where
  keys : (receiver.timeoutEventList.map TimeoutEntry.key).Perm receiver.fragments.keys
  ids : (receiver.timeoutEventList.map TimeoutEntry.id).Nodup
  fresh : ∀ entry ∈ receiver.timeoutEventList, entry.id < receiver.nextId
  iter : ∀ key fragments, receiver.fragments.lookup key = some fragments ->
    ∃ entry ∈ receiver.timeoutEventList, entry.key = key ∧ entry.id = fragments.timeoutIter
  sorted : receiver.timeoutEventList.Pairwise fun earlier later => earlier.time ≤ later.time
  times : ∀ entry ∈ receiver.timeoutEventList,
    receiver.now ≤ entry.time ∧ entry.time ≤ receiver.now + config.fragmentExpirationTimeout

/-- `HandleTimeout` comes in time. -/
structure Scheduled (receiver : Receiver Octet) : Prop where
  front : ∀ entry, receiver.timeoutEventList.head? = some entry -> ∃ event ∈ receiver.timeoutEvents, event ≤ entry.time
  events : ∀ event ∈ receiver.timeoutEvents, receiver.now ≤ event

namespace Listed

variable (listed : receiver.Listed config)
include listed

theorem keys_nodup : (receiver.timeoutEventList.map TimeoutEntry.key).Nodup :=
  listed.keys.nodup_iff.mpr receiver.fragments.keys_nodup

theorem mem_iff : key ∈ receiver.fragments ↔ ∃ entry ∈ receiver.timeoutEventList, entry.key = key := by
  rw [mem_keys, ← listed.keys.mem_iff, List.mem_map]

theorem lookup_of_mem {entry : TimeoutEntry} (mem : entry ∈ receiver.timeoutEventList) :
    ∃ fragments, receiver.fragments.lookup entry.key = some fragments :=
  isSome_iff_exists.mp (lookup_isSome.mpr (listed.mem_iff.mpr ⟨entry, mem, rfl⟩))

variable {fragments : Fragments Octet}

/-- The iterator of a reassembly refers to the entry for its key, and to no other. -/
theorem iter_iff (pending : receiver.fragments.lookup key = some fragments)
    {entry : TimeoutEntry} (mem : entry ∈ receiver.timeoutEventList) :
    entry.id = fragments.timeoutIter ↔ entry.key = key := by
  obtain ⟨own, isOwn, sameKey, sameId⟩ := listed.iter key fragments pending
  rw [← sameId, ← sameKey]
  constructor
  · exact fun same => congrArg _ (List.inj_on_of_nodup_map listed.ids mem isOwn same)
  · exact fun same => congrArg _ (List.inj_on_of_nodup_map listed.keys_nodup mem isOwn same)

theorem eraseTimeout_eq (pending : receiver.fragments.lookup key = some fragments) :
    (receiver.eraseTimeout fragments.timeoutIter).map (fun receiver => receiver.eraseFragments key) =
      some (receiver.forget key) := by
  obtain ⟨own, isOwn, -, sameId⟩ := listed.iter key fragments pending
  have known : receiver.timeoutEventList.any fun entry => entry.id = fragments.timeoutIter :=
    List.any_eq_true.mpr ⟨own, isOwn, decide_eq_true sameId⟩
  have same : (receiver.timeoutEventList.filter fun entry => entry.id ≠ fragments.timeoutIter) =
      receiver.timeoutEventList.filter fun entry => entry.key ≠ key := by
    apply List.filter_congr
    intro entry mem
    exact decide_eq_decide.mpr (not_congr (listed.iter_iff pending mem))
  rw [eraseTimeout, if_pos known, map_some, same]
  rfl

theorem forget (key : FragmentKey) : (receiver.forget key).Listed config where
  keys := by
    have left : ((receiver.timeoutEventList.filter fun entry => entry.key ≠ key).map TimeoutEntry.key) =
        (receiver.timeoutEventList.map TimeoutEntry.key).filter fun other => other ≠ key := by
      rw [List.filter_map]
      rfl
    change ((receiver.timeoutEventList.filter fun entry => entry.key ≠ key).map TimeoutEntry.key).Perm
      (receiver.fragments.erase key).keys
    rw [left, keys_erase, receiver.fragments.keys_nodup.erase_eq_filter]
    simpa [bne, beq_eq_decide] using listed.keys.filter fun other => decide (other ≠ key)
  ids := listed.ids.sublist (List.filter_sublist.map _)
  fresh := fun entry mem => listed.fresh entry (List.mem_of_mem_filter mem)
  iter := by
    intro other fragments pending
    have ne : other ≠ key := by
      rintro rfl
      rw [Receiver.forget, lookup_erase] at pending
      cases pending
    rw [Receiver.forget, lookup_erase_ne ne] at pending
    obtain ⟨entry, mem, sameKey, sameId⟩ := listed.iter other fragments pending
    refine ⟨entry, List.mem_filter.mpr ⟨mem, ?_⟩, sameKey, sameId⟩
    rw [sameKey]
    exact decide_eq_true ne
  sorted := listed.sorted.filter _
  times := fun entry mem => listed.times entry (List.mem_of_mem_filter mem)

theorem insert (new : key ∉ receiver.fragments) (fragments : Fragments Octet)
    (isIter : fragments.timeoutIter = receiver.nextId) :
    { (receiver.setTimeout config key).1 with
      fragments := receiver.fragments.insert key fragments : Receiver Octet }.Listed config where
  keys := by
    rw [keys_insert, List.erase_of_not_mem (fun mem => new (mem_keys.mpr mem))]
    change ((receiver.timeoutEventList ++ [_]).map TimeoutEntry.key).Perm _
    rw [List.map_append, List.map_singleton]
    exact List.perm_append_comm.trans (listed.keys.cons key)
  ids := by
    change ((receiver.timeoutEventList ++ [_]).map TimeoutEntry.id).Nodup
    rw [List.map_append, List.map_singleton, List.nodup_append]
    refine ⟨listed.ids, List.nodup_singleton _, ?_⟩
    intro id mem other isOther same
    obtain ⟨entry, isEntry, rfl⟩ := List.mem_map.mp mem
    rw [List.mem_singleton.mp isOther] at same
    exact Nat.ne_of_lt (listed.fresh entry isEntry) same
  fresh := by
    intro entry mem
    change _ < receiver.nextId + 1
    rcases List.mem_append.mp mem with isOld | isNew
    · exact Nat.lt_succ_of_lt (listed.fresh entry isOld)
    · rw [List.mem_singleton.mp isNew]
      exact Nat.lt_succ_self _
  iter := by
    intro other found isFound
    by_cases same : other = key
    · subst same
      rw [lookup_insert] at isFound
      cases isFound
      exact ⟨_, List.mem_append_right _ (List.mem_singleton_self _), rfl, isIter.symm⟩
    · rw [lookup_insert_ne same] at isFound
      obtain ⟨entry, mem, isEntry⟩ := listed.iter other found isFound
      exact ⟨entry, List.mem_append_left _ mem, isEntry⟩
  sorted := by
    apply List.pairwise_append.mpr ⟨listed.sorted, List.pairwise_singleton _ _, ?_⟩
    intro entry mem last isLast
    rw [List.mem_singleton.mp isLast]
    exact (listed.times entry mem).2
  times := by
    intro entry mem
    rcases List.mem_append.mp mem with isOld | isNew
    · exact listed.times entry isOld
    · rw [List.mem_singleton.mp isNew]
      exact ⟨Nat.le_add_right _ _, Nat.le_refl _⟩

theorem setFragments {changed : Fragments Octet} (pending : receiver.fragments.lookup key = some fragments)
    (isIter : changed.timeoutIter = fragments.timeoutIter) : (receiver.setFragments key changed).Listed config where
  keys := by
    have mem : key ∈ receiver.fragments.keys :=
      mem_keys.mp (lookup_isSome.mp (by rw [pending]; rfl))
    change List.Perm _ (receiver.fragments.insert key changed).keys
    rw [keys_insert]
    exact listed.keys.trans (List.perm_cons_erase mem)
  ids := listed.ids
  fresh := listed.fresh
  iter := by
    intro other found isFound
    by_cases same : other = key
    · subst same
      rw [Receiver.setFragments, lookup_insert] at isFound
      cases isFound
      rw [isIter]
      exact listed.iter other fragments pending
    · rw [Receiver.setFragments, lookup_insert_ne same] at isFound
      exact listed.iter other found isFound
  sorted := listed.sorted
  times := listed.times

theorem eraseOldest_eq {oldest : TimeoutEntry} (isOldest : receiver.timeoutEventList.head? = some oldest) :
    receiver.eraseOldest = some (receiver.forget oldest.key) := by
  obtain ⟨fragments, pending⟩ := listed.lookup_of_mem (List.mem_of_head? isOldest)
  rw [eraseOldest, isOldest, bind_some, pending, bind_some, listed.eraseTimeout_eq pending]

theorem exists_oldest {size : Nat} (pos : size ≠ 0) (full : receiver.fragments.keys.length ≥ size) :
    ∃ oldest, receiver.timeoutEventList.head? = some oldest := by
  have length := listed.keys.length_eq
  rw [List.length_map] at length
  cases isList : receiver.timeoutEventList with
  | nil =>
    rw [isList, List.length_nil] at length
    omega
  | cons oldest rest => exact ⟨oldest, rfl⟩

end Listed

namespace Scheduled

theorem forget (scheduled : receiver.Scheduled) (listed : receiver.Listed config) (key : FragmentKey) :
    (receiver.forget key).Scheduled where
  front := by
    intro entry isFront
    have mem := List.mem_of_mem_filter (List.mem_of_head? isFront)
    have sorted := listed.sorted
    have front := scheduled.front
    cases isList : receiver.timeoutEventList with
    | nil =>
      rw [isList] at mem
      cases mem
    | cons first rest =>
      obtain ⟨event, isEvent, inTime⟩ := front first (by rw [isList]; rfl)
      refine ⟨event, isEvent, ?_⟩
      rw [isList] at mem sorted
      rcases List.mem_cons.mp mem with rfl | inRest
      · exact inTime
      · exact Nat.le_trans inTime ((List.pairwise_cons.mp sorted).1 entry inRest)
  events := scheduled.events

theorem insert (scheduled : receiver.Scheduled) (fragments : AList fun _ : FragmentKey => Fragments Octet) :
    { (receiver.setTimeout config key).1 with fragments : Receiver Octet }.Scheduled := by
  have front := scheduled.front
  have events := scheduled.events
  cases isList : receiver.timeoutEventList with
  | nil =>
    constructor
    · intro entry isFront
      simp only [setTimeout, isList, List.nil_append, List.head?_cons, some.injEq, List.isEmpty_nil, if_true]
        at isFront ⊢
      subst isFront
      exact ⟨_, List.mem_append_right _ (List.mem_singleton_self _), Nat.le_refl _⟩
    · intro event mem
      simp only [setTimeout, isList, List.isEmpty_nil, if_true] at mem ⊢
      rcases List.mem_append.mp mem with isOld | isNew
      · exact events event isOld
      · rw [List.mem_singleton.mp isNew]
        exact Nat.le_add_right _ _
  | cons first rest =>
    constructor
    · intro entry isFront
      simp only [setTimeout, isList, List.cons_append, List.head?_cons, some.injEq, List.isEmpty_cons,
        Bool.false_eq_true, if_false] at isFront ⊢
      subst isFront
      exact front first (by rw [isList]; rfl)
    · intro event mem
      simp only [setTimeout, isList, List.isEmpty_cons, Bool.false_eq_true, if_false] at mem ⊢
      exact events event mem

end Scheduled

/-- The entries whose time has come are at the front. -/
theorem expire_eq (entries : List TimeoutEntry) (listed : { receiver with timeoutEventList := entries }.Listed config) :
    ∃ expired, expire receiver.now receiver entries = some expired ∧ expired.Listed config ∧
      expired.now = receiver.now ∧ expired.timeoutEvents = receiver.timeoutEvents ∧
      ∀ key, (∀ entry ∈ entries, entry.key = key -> entry.time = receiver.now ->
          expired.fragments.lookup key = none) ∧
        ((∀ entry ∈ entries, entry.key = key -> entry.time ≠ receiver.now) ->
          expired.fragments.lookup key = receiver.fragments.lookup key) := by
  induction entries generalizing receiver with
  | nil => exact ⟨_, rfl, listed, rfl, rfl, fun key => ⟨nofun, fun _ => rfl⟩⟩
  | cons entry entries ih =>
    obtain ⟨fragments, pending⟩ := listed.lookup_of_mem List.mem_cons_self
    have nodup := List.nodup_cons.mp listed.keys_nodup
    have others : ∀ other ∈ entries, other.key ≠ entry.key := fun other mem same =>
      nodup.1 (same ▸ List.mem_map_of_mem mem)
    by_cases due : entry.time = receiver.now
    · have rest : ({ receiver with timeoutEventList := entry :: entries }.forget entry.key : Receiver Octet) =
          { receiver.eraseFragments entry.key with timeoutEventList := entries } := by
        have isRest : (entry :: entries).filter (fun other => other.key ≠ entry.key) = entries := by
          rw [List.filter_cons_of_neg (by simp)]
          exact List.filter_eq_self.mpr fun other mem => decide_eq_true (others other mem)
        rw [forget, isRest, eraseFragments]
      obtain ⟨expired, isExpired, isListed, now, events, lookup⟩ :=
        @ih (receiver.eraseFragments entry.key) (rest ▸ listed.forget entry.key)
      refine ⟨expired, ?_, isListed, now, events, fun key => ⟨?_, ?_⟩⟩
      · change receiver.fragments.lookup entry.key = some fragments at pending
        rw [expire, if_pos due, pending, bind_some]
        exact isExpired
      · intro other mem isKey isDue
        by_cases known : ∃ other ∈ entries, other.key = key ∧ other.time = receiver.now
        · obtain ⟨other, isOther, sameKey, sameTime⟩ := known
          exact (lookup key).1 other isOther sameKey sameTime
        · rw [(lookup key).2 fun other isOther sameKey sameTime => known ⟨other, isOther, sameKey, sameTime⟩]
          rcases List.mem_cons.mp mem with rfl | inRest
          · rw [eraseFragments, isKey, lookup_erase]
          · exact absurd ⟨other, inRest, isKey, isDue⟩ known
      · intro notDue
        have ne : key ≠ entry.key := fun same => notDue entry List.mem_cons_self same.symm due
        rw [(lookup key).2 fun other mem => notDue other (List.mem_cons_of_mem _ mem), eraseFragments,
          lookup_erase_ne ne]
    · refine ⟨_, by rw [expire, if_neg due], listed, rfl, rfl, fun key => ⟨?_, fun _ => rfl⟩⟩
      intro other mem isKey isDue
      -- the list is sorted, so nothing behind an entry that is not due is due
      have times := (listed.times entry List.mem_cons_self).1
      rcases List.mem_cons.mp mem with rfl | inRest
      · exact absurd isDue due
      · have le := (List.pairwise_cons.mp listed.sorted).1 other inRest
        change receiver.now ≤ entry.time at times
        omega

end Ns3.SixLowPan.Receiver
