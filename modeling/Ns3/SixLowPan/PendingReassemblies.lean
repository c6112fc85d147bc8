import Ns3.SixLowPan.Reassembly
import Ns3.SixLowPan.Timeouts

/-!
# Reassembly of many datagrams

Whatever fragments arrive, a datagram is complete when the last of them comes, and none but the
oldest one loses its place to another. Each reassembly holds the fragments that have come of its own
datagram, and the list of timeouts has one entry for each.
-/

namespace Ns3.SixLowPan.Reassembly

open Semantics List Option Reassembly AList Receiver

variable {Octet : Type} {config : ReceiverConfig Octet} {sent : Sent Octet} {state : State Octet}

/-- The oldest datagram makes room for a new one. -/
structure Evicted (config : ReceiverConfig Octet) (before after : Receiver Octet) (new key : FragmentKey) : Prop where
  new : before.fragments.lookup new = none
  full : config.fragmentReassemblyListSize ≠ 0 ∧ before.fragments.keys.length ≥ config.fragmentReassemblyListSize
  oldest : ∃ entry, before.timeoutEventList.head? = some entry ∧ entry.key = key
  gone : after.fragments.lookup key = none

/-- What a fragment does to the datagram it belongs to and to the others. -/
structure Received (config : ReceiverConfig Octet) (state : State Octet) (own : Datagram Octet × List (Fragment Octet))
    (fragment : Fragment Octet) (result : Receiver Octet × Option (List Octet)) : Prop where
  complete : result.2.isSome ↔ ∀ other ∈ own.2, other = fragment ∨ other ∈ state.arrived (keyOf own.1)
  packet : ∀ packet, result.2 = some packet -> packet = own.1.packet
  pending : (result.1.fragments.lookup (keyOf own.1)).isSome ↔ result.2 = none
  others : ∀ key, key ≠ keyOf own.1 -> result.1.fragments.lookup key = state.receiver.fragments.lookup key ∨
    Evicted config state.receiver result.1 (keyOf own.1) key

/-- The datagrams whose time has come are gone, and the others are as they were. -/
structure Expired (receiver expired : Receiver Octet) : Prop where
  due : ∀ entry ∈ receiver.timeoutEventList, entry.time = receiver.now -> expired.fragments.lookup entry.key = none
  others : ∀ key, (∀ entry ∈ receiver.timeoutEventList, entry.key = key -> entry.time ≠ receiver.now) ->
    expired.fragments.lookup key = receiver.fragments.lookup key

/-- `HandleTimeout` as the simulator runs it: the event is gone. -/
def runTimeout (receiver : Receiver Octet) : Option (Receiver Octet) :=
  { receiver with timeoutEvents := receiver.timeoutEvents.erase receiver.now : Receiver Octet }.handleTimeout

structure Sound (config : ReceiverConfig Octet) (sent : Sent Octet) (state : State Octet) : Prop where
  receive : ∀ own ∈ sent, ∀ fragment ∈ own.2, ∃ result,
    state.receiver.processFragment config own.1.src own.1.dst fragment = some result ∧
      Received config state own fragment result
  handleTimeout : state.receiver.now ∈ state.receiver.timeoutEvents ->
    ∃ expired, runTimeout state.receiver = some expired ∧ Expired state.receiver expired
  /-- One entry of the list for each reassembly. -/
  timeouts : (state.receiver.timeoutEventList.map TimeoutEntry.key).Perm state.receiver.fragments.keys
  iterators : ∀ key fragments, state.receiver.fragments.lookup key = some fragments ->
    ∃ entry ∈ state.receiver.timeoutEventList, entry.key = key ∧ entry.id = fragments.timeoutIter ∧
      ∀ other ∈ state.receiver.timeoutEventList, other.id = fragments.timeoutIter -> other = entry

/-- Datagrams that the receiver can put together and tell apart. -/
structure Separate (config : ReceiverConfig Octet) (sent : Sent Octet) : Prop where
  whole : ∀ own ∈ sent, own.1.Whole config own.2
  distinct : ∀ own ∈ sent, ∀ other ∈ sent, keyOf own.1 = keyOf other.1 -> own = other

structure Consistent (config : ReceiverConfig Octet) (sent : Sent Octet) (state : State Octet) : Prop where
  listed : state.receiver.Listed config
  scheduled : state.receiver.Scheduled
  contents : ∀ key entry, state.receiver.fragments.lookup key = some entry ->
    ∃ own ∈ sent, keyOf own.1 = key ∧ own.1.Pending config own.2 (state.arrived key) entry
  absent : ∀ key, state.receiver.fragments.lookup key = none -> state.arrived key = []

theorem Consistent.pendingOnly {receiver : Receiver Octet} {arrived : FragmentKey -> List (Fragment Octet)}
    (listed : receiver.Listed config) (scheduled : receiver.Scheduled)
    (contents : ∀ key entry, receiver.fragments.lookup key = some entry ->
      ∃ own ∈ sent, keyOf own.1 = key ∧ own.1.Pending config own.2 (arrived key) entry) :
    Consistent config sent { receiver, arrived := pendingOnly receiver arrived } where
  listed := listed
  scheduled := scheduled
  contents := by
    intro key entry pending
    change ∃ own ∈ sent, _ ∧ own.1.Pending config own.2 (if (receiver.fragments.lookup key).isSome then _ else _) entry
    have isPending : receiver.fragments.lookup key = some entry := pending
    rw [isPending]
    exact contents key entry pending
  absent := by
    intro key missing
    change (if (receiver.fragments.lookup key).isSome then _ else _) = _
    have isMissing : receiver.fragments.lookup key = none := missing
    rw [isMissing]
    rfl

/-- The receiver with a place for a datagram, and what is held of it. -/
structure Placed (config : ReceiverConfig Octet) (state : State Octet) (own : Datagram Octet × List (Fragment Octet))
    (receiver : Receiver Octet) (entry : Fragments Octet) : Prop where
  listed : receiver.Listed config
  scheduled : receiver.Scheduled
  found : receiver.fragments.lookup (keyOf own.1) = some entry
  pending : own.1.Pending config own.2 (state.arrived (keyOf own.1)) entry
  others : ∀ key, key ≠ keyOf own.1 -> receiver.fragments.lookup key = state.receiver.fragments.lookup key ∨
    Evicted config state.receiver receiver (keyOf own.1) key

/-- The oldest datagram goes where there is no room, and no other. -/
theorem room (consistent : Consistent config sent state) {key : FragmentKey}
    (new : state.receiver.fragments.lookup key = none) : ∃ receiver : Receiver Octet,
    (if config.fragmentReassemblyListSize ≠ 0 ∧
        state.receiver.fragments.keys.length ≥ config.fragmentReassemblyListSize then state.receiver.eraseOldest
      else some state.receiver) = some receiver ∧
      receiver.Listed config ∧ receiver.Scheduled ∧ receiver.fragments.lookup key = none ∧
      ∀ other, receiver.fragments.lookup other = state.receiver.fragments.lookup other ∨
        Evicted config state.receiver receiver key other := by
  have listed := consistent.listed
  by_cases full : config.fragmentReassemblyListSize ≠ 0 ∧
      state.receiver.fragments.keys.length ≥ config.fragmentReassemblyListSize
  · obtain ⟨oldest, isOldest⟩ := listed.exists_oldest full.1 full.2
    have lookup : ∀ other, (state.receiver.forget oldest.key).fragments.lookup other =
        if other = oldest.key then none else state.receiver.fragments.lookup other := by
      intro other
      by_cases same : other = oldest.key
      · rw [if_pos same, same]
        exact lookup_erase _ _
      · rw [if_neg same]
        exact lookup_erase_ne same
    refine ⟨_, by rw [if_pos full, listed.eraseOldest_eq isOldest], listed.forget _,
      consistent.scheduled.forget listed _, ?_, fun other => ?_⟩
    · rw [lookup, new, ite_self]
    · by_cases same : other = oldest.key
      · exact .inr ⟨new, full, ⟨oldest, isOldest, same.symm⟩, by rw [lookup, if_pos same]⟩
      · exact .inl (by rw [lookup, if_neg same])
  · exact ⟨_, if_neg full, listed, consistent.scheduled, new, fun _ => .inl rfl⟩

variable {own : Datagram Octet × List (Fragment Octet)} {fragment : Fragment Octet}

theorem placed (separate : Separate config sent) (consistent : Consistent config sent state)
    (isOwn : own ∈ sent) : ∃ receiver entry,
    state.receiver.withEntry config (keyOf own.1) (keyOf own.1).datagramSize.toNat = some receiver ∧
      Placed config state own receiver entry := by
  cases found : state.receiver.fragments.lookup (keyOf own.1) with
  | some entry =>
    obtain ⟨other, isOther, same, pending⟩ := consistent.contents _ entry found
    obtain rfl := separate.distinct own isOwn other isOther same.symm
    have isWithEntry : state.receiver.withEntry config (keyOf own.1) (keyOf own.1).datagramSize.toNat =
        some state.receiver := if_pos (by rw [found]; rfl)
    exact ⟨_, entry, isWithEntry, consistent.listed, consistent.scheduled, found, pending, fun _ _ => .inl rfl⟩
  | none =>
    obtain ⟨receiver, isRoom, listed, scheduled, missing, others⟩ := room consistent found
    have new : keyOf own.1 ∉ receiver.fragments := lookup_eq_none.mp missing
    have small := (separate.whole own isOwn).small
    refine ⟨_, { packetSize := (keyOf own.1).datagramSize.toNat, timeoutIter := receiver.nextId }, ?_,
      listed.insert new _ rfl, scheduled.insert _, lookup_insert _, ?_, fun key ne => ?_⟩
    · rw [withEntry, if_neg (by rw [found]; exact nofun), create, isRoom]
      rfl
    · rw [consistent.absent _ found]
      refine ⟨nil_subset _, ?_, ?_, fun _ mem => nomatch mem⟩
      · change own.1.origPacketSize.toUInt16.toNat = _
        rw [UInt32.toNat_toUInt16]
        omega
      · exact (filter_eq_nil_iff.mpr fun _ _ => Bool.false_ne_true).symm
    · rcases others key with same | evicted
      · exact .inl ((lookup_insert_ne ne).trans same)
      · exact .inr ⟨evicted.new, evicted.full, evicted.oldest, (lookup_insert_ne ne).trans evicted.gone⟩

/-- A first fragment is kept as it came and measured as it was; a later one is where it belongs
already. -/
theorem processFragment_eq (whole : own.1.Whole config own.2) (isFragment : fragment ∈ own.2)
    (receiver : Receiver Octet) :
    receiver.processFragment config own.1.src own.1.dst fragment =
      receiver.store config (keyOf own.1) (own.1.piece config fragment).1 (own.1.piece config fragment).2
        (if fragment.header.isFirst then some fragment.data else none) := by
  obtain ⟨isSize, isTag⟩ := whole.headers fragment isFragment
  have isKey : (⟨own.1.src, own.1.dst, fragment.header.datagramSize, fragment.header.datagramTag⟩ : FragmentKey) =
      keyOf own.1 := by
    rw [isSize, isTag]
    rfl
  obtain ⟨first, rest, isList, isFirst, measured, later⟩ := whole.head
  obtain ⟨decompressed, isDecompressed⟩ := isSome_iff_exists.mp measured
  rw [isList] at isFragment
  rcases mem_cons.mp isFragment with rfl | inRest
  · obtain ⟨header, data⟩ := fragment
    cases header with
    | fragN => cases isFirst
    | frag1 size tag =>
      have isData : config.decompress own.1.src own.1.dst data = some decompressed := isDecompressed
      have isPiece : own.1.piece config ⟨.frag1 size tag, data⟩ = (decompressed, 0) := by
        change ((config.decompress own.1.src own.1.dst data).getD [], 0) = _
        rw [isData, getD_some]
      rw [processFragment, isPiece, isKey]
      simp only [isData]
      rfl
  · have notFirst := later fragment inRest
    rw [processFragment, Datagram.piece_later notFirst, notFirst, isKey]
    rfl

theorem received (separate : Separate config sent) (consistent : Consistent config sent state) (isOwn : own ∈ sent)
    (isFragment : fragment ∈ own.2) : ∃ result,
    state.receiver.processFragment config own.1.src own.1.dst fragment = some result ∧
      Received config state own fragment result ∧
      Consistent config sent ⟨result.1, pendingOnly result.1
        fun key => if key = keyOf own.1 then fragment :: state.arrived key else state.arrived key⟩ := by
  have whole := separate.whole own isOwn
  obtain ⟨receiver, entry, isPlaced, placed⟩ := placed separate consistent isOwn
  obtain ⟨added, isAdded, isIter, pending⟩ := whole.add placed.pending isFragment
  have isEntire := whole.isEntire_iff pending
  simp only [mem_cons] at isEntire
  -- the datagrams beside the one the fragment belongs to
  have others : ∀ result : Receiver Octet, (∀ key, key ≠ keyOf own.1 ->
      result.fragments.lookup key = receiver.fragments.lookup key) -> ∀ key, key ≠ keyOf own.1 ->
      result.fragments.lookup key = state.receiver.fragments.lookup key ∨
        Evicted config state.receiver result (keyOf own.1) key := by
    intro result same key ne
    rcases placed.others key ne with asBefore | evicted
    · exact .inl ((same key ne).trans asBefore)
    · exact .inr ⟨evicted.new, evicted.full, evicted.oldest, (same key ne).trans evicted.gone⟩
  have contents : ∀ {result : Receiver Octet} {key : FragmentKey} {kept : Fragments Octet}, key ≠ keyOf own.1 ->
      (result.fragments.lookup key = state.receiver.fragments.lookup key ∨
        Evicted config state.receiver result (keyOf own.1) key) -> result.fragments.lookup key = some kept ->
      ∃ other ∈ sent, keyOf other.1 = key ∧ other.1.Pending config other.2
        (if key = keyOf own.1 then fragment :: state.arrived key else state.arrived key) kept := by
    intro result key kept ne cases found
    rw [if_neg ne]
    rcases cases with same | evicted
    · exact consistent.contents key kept (same.symm.trans found)
    · exact absurd (found.symm.trans evicted.gone) (some_ne_none kept)
  rw [processFragment_eq whole isFragment, store]
  simp only [isPlaced, bind_some, placed.found, isAdded]
  by_cases entire : added.isEntire
  · have erased := placed.listed.eraseTimeout_eq placed.found
    rw [← isIter] at erased
    have gone : (receiver.forget (keyOf own.1)).fragments.lookup (keyOf own.1) = none := lookup_erase _ _
    have same := others (receiver.forget (keyOf own.1)) fun key ne => lookup_erase_ne ne
    refine ⟨(receiver.forget (keyOf own.1), some own.1.packet), ?_, ⟨?_, ?_, ?_, same⟩, ?_⟩
    · rw [if_pos entire, whole.getPacket_eq pending ((whole.isEntire_iff pending).mp entire), bind_some]
      obtain ⟨erasedReceiver, isErased, isForget⟩ := map_eq_some_iff.mp erased
      rw [isErased, map_some, isForget]
    · exact iff_of_true rfl (isEntire.mp entire)
    · exact fun packet isPacket => (some.inj isPacket).symm
    · rw [gone]
      exact iff_of_false Bool.false_ne_true (some_ne_none _)
    · apply Consistent.pendingOnly (placed.listed.forget _) (placed.scheduled.forget placed.listed _)
      intro key kept found
      have ne : key ≠ keyOf own.1 := by
        rintro rfl
        exact absurd (found.symm.trans gone) (some_ne_none kept)
      exact contents ne (same key ne) found
  · have stays : (receiver.setFragments (keyOf own.1) added).fragments.lookup (keyOf own.1) = some added :=
      lookup_insert _
    have same := others (receiver.setFragments (keyOf own.1) added) fun key ne => lookup_insert_ne ne
    refine ⟨(receiver.setFragments (keyOf own.1) added, none), by rw [if_neg entire], ⟨?_, ?_, ?_, same⟩, ?_⟩
    · exact iff_of_false Bool.false_ne_true fun all => entire (isEntire.mpr all)
    · exact fun packet isPacket => absurd isPacket.symm (some_ne_none packet)
    · rw [stays]
      exact iff_of_true rfl rfl
    · apply Consistent.pendingOnly (placed.listed.setFragments placed.found isIter)
        ⟨placed.scheduled.front, placed.scheduled.events⟩
      intro key kept found
      by_cases isKey : key = keyOf own.1
      · subst isKey
        cases stays.symm.trans found
        rw [if_pos rfl]
        exact ⟨own, isOwn, rfl, pending⟩
      · exact contents isKey (same key isKey) found

theorem expired (consistent : Consistent config sent state) :
    ∃ receiver, runTimeout state.receiver = some receiver ∧ Expired state.receiver receiver ∧
      Consistent config sent { receiver, arrived := pendingOnly receiver state.arrived } := by
  have listed := consistent.listed
  have erased : { state.receiver with
      timeoutEvents := state.receiver.timeoutEvents.erase state.receiver.now : Receiver Octet }.Listed config :=
    ⟨listed.keys, listed.ids, listed.fresh, listed.iter, listed.sorted, listed.times⟩
  obtain ⟨expired, isExpired, isListed, now, events, lookup⟩ := @Receiver.expire_eq Octet config
    { state.receiver with timeoutEvents := state.receiver.timeoutEvents.erase state.receiver.now }
    state.receiver.timeoutEventList erased
  have isExpiry : ∀ after : Receiver Octet, after.fragments = expired.fragments -> Expired state.receiver after := by
    intro after same
    refine ⟨fun entry mem due => ?_, fun key notDue => ?_⟩
    · rw [same]
      exact (lookup entry.key).1 entry mem rfl due
    · rw [same]
      exact (lookup key).2 notDue
  have contents : ∀ key entry, expired.fragments.lookup key = some entry ->
      ∃ own ∈ sent, keyOf own.1 = key ∧ own.1.Pending config own.2 (state.arrived key) entry := by
    intro key entry found
    apply consistent.contents key entry
    rw [← (lookup key).2 fun timeout mem isKey due => ?_]
    · exact found
    · rw [(lookup key).1 timeout mem isKey due] at found
      cases found
  have old : ∀ event ∈ expired.timeoutEvents, expired.now ≤ event := by
    intro event mem
    rw [events] at mem
    rw [now]
    exact consistent.scheduled.events event (mem_of_mem_erase mem)
  rw [runTimeout, handleTimeout, isExpired]
  obtain ⟨time, fragments, timeoutEventList, nextId, timeoutEvents⟩ := expired
  cases timeoutEventList with
  | nil => exact ⟨_, rfl, isExpiry _ rfl, Consistent.pendingOnly isListed ⟨nofun, old⟩ contents⟩
  | cons front rest =>
    have inTime := (isListed.times front mem_cons_self).1
    have stillListed : (⟨time, fragments, front :: rest, nextId, timeoutEvents ++ [front.time]⟩ :
        Receiver Octet).Listed config :=
      ⟨isListed.keys, isListed.ids, isListed.fresh, isListed.iter, isListed.sorted, isListed.times⟩
    refine ⟨_, if_pos inTime, isExpiry _ rfl, Consistent.pendingOnly stillListed ⟨?_, ?_⟩ contents⟩
    · intro entry isFront
      cases isFront
      exact ⟨_, mem_append_right _ (mem_singleton_self _), Nat.le_refl _⟩
    · intro event mem
      rcases mem_append.mp mem with isOld | isNew
      · exact old event isOld
      · rw [mem_singleton.mp isNew]
        exact inTime

theorem Consistent.initial : Consistent config sent {} where
  listed := ⟨.refl _, nodup_nil, nofun, nofun, .nil, nofun⟩
  scheduled := ⟨nofun, nofun⟩
  contents := nofun
  absent := fun _ _ => rfl

theorem Consistent.advance (consistent : Consistent config sent state) {time : Nat}
    (later : state.receiver.now ≤ time) (events : ∀ event ∈ state.receiver.timeoutEvents, time ≤ event) :
    Consistent config sent { state with receiver := { state.receiver with now := time } } := by
  have listed := consistent.listed
  have scheduled := consistent.scheduled
  refine ⟨⟨listed.keys, listed.ids, listed.fresh, listed.iter, listed.sorted, ?_⟩, ⟨scheduled.front, events⟩,
    consistent.contents, consistent.absent⟩
  intro entry mem
  obtain ⟨-, bound⟩ := listed.times entry mem
  have le : state.receiver.now + config.fragmentExpirationTimeout ≤ time + config.fragmentExpirationTimeout := by omega
  refine ⟨?_, Nat.le_trans bound le⟩
  -- the event for the front of the list has not been passed
  have sorted := listed.sorted
  have front := scheduled.front
  cases isList : state.receiver.timeoutEventList with
  | nil => exact absurd (isList ▸ mem) not_mem_nil
  | cons first rest =>
    obtain ⟨event, isEvent, inTime⟩ := front first (by rw [isList]; rfl)
    have notPassed := Nat.le_trans (events event isEvent) inTime
    rw [isList] at sorted
    have inList : entry ∈ first :: rest := isList ▸ mem
    rcases mem_cons.mp inList with rfl | inRest
    · exact notPassed
    · exact Nat.le_trans notPassed ((pairwise_cons.mp sorted).1 entry inRest)

theorem Consistent.step (separate : Separate config sent) (consistent : Consistent config sent state) {action : Action}
    {next : State Octet} (moves : (system config sent).step state action = some next) :
    Consistent config sent next := by
  cases action with
  | receive datagram fragment =>
    obtain ⟨own, isOwn, rest⟩ := bind_eq_some_iff.mp moves
    obtain ⟨received, isReceived, processed⟩ := bind_eq_some_iff.mp rest
    obtain ⟨result, isResult, rfl⟩ := map_eq_some_iff.mp processed
    obtain ⟨same, isSame, -, isConsistent⟩ := Reassembly.received separate consistent (mem_of_getElem? isOwn)
      (mem_of_getElem? isReceived)
    cases isSame.symm.trans isResult
    exact isConsistent
  | advance time =>
    obtain ⟨⟨later, events⟩, same⟩ := ite_none_right_eq_some.mp moves
    cases same
    exact consistent.advance later events
  | handleTimeout =>
    obtain ⟨-, handled⟩ := ite_none_right_eq_some.mp moves
    obtain ⟨receiver, isReceiver, rfl⟩ := map_eq_some_iff.mp handled
    obtain ⟨same, isSame, -, isConsistent⟩ := Reassembly.expired consistent
    cases isSame.symm.trans isReceiver
    exact isConsistent

theorem Consistent.sound (separate : Separate config sent) (consistent : Consistent config sent state) :
    Sound config sent state where
  receive := by
    intro own isOwn fragment isFragment
    obtain ⟨result, isResult, received, -⟩ := received separate consistent isOwn isFragment
    exact ⟨result, isResult, received⟩
  handleTimeout := by
    intro _
    obtain ⟨expired, isExpired, expiry, -⟩ := expired consistent
    exact ⟨expired, isExpired, expiry⟩
  timeouts := consistent.listed.keys
  iterators := by
    intro key fragments pending
    obtain ⟨entry, mem, isKey, isId⟩ := consistent.listed.iter key fragments pending
    refine ⟨entry, mem, isKey, isId, fun other isOther sameId => ?_⟩
    exact inj_on_of_nodup_map consistent.listed.ids isOther mem (sameId.trans isId.symm)

theorem run_sound (separate : Separate config sent) {trace : List (State Octet × Action)}
    (run : (system config sent).Run trace state) : Sound config sent state := by
  apply Consistent.sound separate
  apply System.Run.invariant_of_guard (Consistent config sent) (fun _ _ => True) _ _ run fun _ _ => trivial
  · rintro _ rfl
    exact Consistent.initial
  · exact fun consistent _ moves => consistent.step separate moves

/-- The datagrams with what `DoFragmentation` makes of them. -/
def sentOf (datagrams : List (Datagram Octet)) : Sent Octet :=
  datagrams.map fun datagram => (datagram, (datagram.doFragmentation (datagram.packet.length + 1)).getD [])

theorem separate_sentOf {datagrams : List (Datagram Octet)} (room : ∀ datagram ∈ datagrams, datagram.Room)
    (measured : ∀ datagram ∈ datagrams, datagram.Measured config) (distinct : (datagrams.map keyOf).Nodup)
    (announceable : ∀ datagram ∈ datagrams, datagram.Announceable) : Separate config (sentOf datagrams) where
  whole := by
    intro own isOwn
    obtain ⟨datagram, mem, rfl⟩ := List.mem_map.mp isOwn
    obtain ⟨fragments, isResult, whole⟩ := Datagram.whole_of_announceable (room datagram mem)
      (announceable datagram mem) (measured datagram mem)
    rw [isResult]
    exact whole
  distinct := by
    intro own isOwn other isOther same
    obtain ⟨datagram, mem, rfl⟩ := List.mem_map.mp isOwn
    obtain ⟨otherDatagram, otherMember, rfl⟩ := List.mem_map.mp isOther
    rw [inj_on_of_nodup_map distinct mem otherMember same]

/-- Fragmentation and reassembly are inverse for every datagram and in every run exactly if all
datagrams can be announced. -/
theorem reassembly_iff (config : ReceiverConfig Octet) (datagrams : List (Datagram Octet))
    (room : ∀ datagram ∈ datagrams, datagram.Room) (measured : ∀ datagram ∈ datagrams, datagram.Measured config)
    (distinct : (datagrams.map keyOf).Nodup) :
    ((∀ datagram ∈ datagrams, datagram.FragmentsWell) ∧
        ∀ trace state, (system config (sentOf datagrams)).Run trace state -> Sound config (sentOf datagrams) state) ↔
      ∀ datagram ∈ datagrams, datagram.Announceable := by
  constructor
  · rintro ⟨well, -⟩ datagram member
    exact (Datagram.fragmentsWell_iff (room datagram member)).mp (well datagram member)
  · intro announceable
    refine ⟨fun datagram member => ?_, fun trace state run => ?_⟩
    · exact (Datagram.fragmentsWell_iff (room datagram member)).mpr (announceable datagram member)
    · exact run_sound (separate_sentOf room measured distinct announceable) run

/-- A packet of which the headers have been compressed to three octets. -/
def compressed (payload headers : Nat) : Datagram Unit where
  src := 1
  dst := 2
  packet := replicate (3 + payload) ()
  origPacketSize := UInt32.ofNat (headers + payload)
  origHdrSize := UInt32.ofNat headers
  extraHdrSize := 0
  l2Mtu := 127
  tag := 7

/-- Decompression to headers of some size. -/
def decompressTo (headers : Nat) : ReceiverConfig Unit where
  fragmentReassemblyListSize := 1
  fragmentExpirationTimeout := 60
  decompress := fun _ _ data => some (replicate headers () ++ data.drop 3)

/-- Two of them, which differ in the tag. -/
def twoDatagrams : List (Datagram Unit) :=
  [compressed 160 40, { compressed 160 40 with tag := 8 }]

theorem twoDatagrams_room : ∀ datagram ∈ twoDatagrams, datagram.Room :=
  forall_mem_cons.mpr
    ⟨⟨by decide +kernel, by decide +kernel, by decide +kernel, by decide +kernel, by decide +kernel, by decide +kernel⟩,
      forall_mem_singleton.mpr ⟨by decide +kernel, by decide +kernel, by decide +kernel, by decide +kernel,
        by decide +kernel, by decide +kernel⟩⟩

theorem twoDatagrams_measured : ∀ datagram ∈ twoDatagrams, datagram.Measured (decompressTo 40) :=
  forall_mem_cons.mpr ⟨⟨_, rfl, by decide +kernel⟩, forall_mem_singleton.mpr ⟨_, rfl, by decide +kernel⟩⟩

theorem reassembly_iff_compressed : (∀ datagram ∈ twoDatagrams, datagram.FragmentsWell) ∧ ∀ trace state,
    (system (decompressTo 40) (sentOf twoDatagrams)).Run trace state ->
      Sound (decompressTo 40) (sentOf twoDatagrams) state := by
  apply (reassembly_iff (decompressTo 40) twoDatagrams twoDatagrams_room twoDatagrams_measured (by decide)).mpr
  exact forall_mem_cons.mpr ⟨⟨by decide, by decide⟩, forall_mem_singleton.mpr ⟨by decide, by decide⟩⟩

/-- The eleven bits announce a packet of 2048 octets as one of none, and the offsets leave out what
is behind the last multiple of eight of the headers. -/
theorem not_fragmentsWell :
    ((compressed 2008 40).Room ∧ (compressed 2008 40).Measured (decompressTo 40) ∧
      ¬ (compressed 2008 40).FragmentsWell) ∧
      (compressed 160 41).Room ∧ (compressed 160 41).Measured (decompressTo 41) ∧
        ¬ (compressed 160 41).FragmentsWell := by
  have large : (compressed 2008 40).Room :=
    ⟨by decide +kernel, by decide +kernel, by decide +kernel, by decide +kernel, by decide +kernel, by decide +kernel⟩
  have odd : (compressed 160 41).Room :=
    ⟨by decide +kernel, by decide +kernel, by decide +kernel, by decide +kernel, by decide +kernel, by decide +kernel⟩
  refine ⟨⟨large, ⟨_, rfl, by decide +kernel⟩, ?_⟩, odd, ⟨_, rfl, by decide +kernel⟩, ?_⟩
  · rw [Datagram.fragmentsWell_iff large]
    exact fun announceable => absurd announceable.1 (by decide)
  · rw [Datagram.fragmentsWell_iff odd]
    exact fun announceable => absurd announceable.2 (by decide)

end Ns3.SixLowPan.Reassembly
