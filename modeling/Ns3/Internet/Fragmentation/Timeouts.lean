import Ns3.Internet.Fragmentation.Ipv4L3Protocol
import Ns3.Semantics.Deadlines
import Ns3.Semantics.EventQueue

/-!
# Time-outs of IPv4 reassembly

`ProcessFragment` puts a datagram at the end of `m_timeoutEventList` when its first fragment
arrives, and takes it out once it is complete. One event is scheduled if the list was empty, so
several may be pending: `HandleTimeout` may come early, and goes on to the first of the list.
-/

namespace Ns3.Internet

open Ns3.Network Ns3.Semantics Fragments List Option Function Int EventQueue

/-- An element of `m_timeoutEventList`. -/
structure FragmentsTimeout where
  /-- Which element this is: a `std::list` is referred to by iterators. -/
  iter : Nat
  deadline : Int
  key : Ipv4L3Protocol.FragmentKey
  ipHeader : Ipv4Header
  iif : UInt32

/-- What the drop trace is told, and whether an ICMP message is sent. -/
structure FragmentsDrop (Octet : Type) where
  ipHeader : Ipv4Header
  packet : List Octet
  iif : UInt32
  timeExceeded : Bool

/-- What a node has of datagrams that are not complete. -/
structure Ipv4Reassembly (Octet : Type) where
  /-- `m_fragments`, with the iterator that each of the `Fragments` has. -/
  fragments : Ipv4L3Protocol.FragmentKey -> Option (Fragments Octet × Nat)
  timeoutEventList : List FragmentsTimeout
  nextIter : Nat
  /-- The `HandleTimeout` events that are pending, and the time. -/
  events : EventQueue Unit
  /-- What became of which datagram. The program does not keep it, and nothing reads it. -/
  records : List (Record Ipv4L3Protocol.FragmentKey (List Octet) (FragmentsDrop Octet))

namespace Ipv4Reassembly

open Ipv4L3Protocol

variable {Octet : Type}

/-! ## Arrivals -/

variable (timeout : Nat)

/-- `timeout` is `m_fragmentExpirationTimeout`. -/
def setTimeout (node : Ipv4Reassembly Octet) (key : FragmentKey) (ipHeader : Ipv4Header) (iif : UInt32) :
    Ipv4Reassembly Octet :=
  { node with
    timeoutEventList := node.timeoutEventList ++ [⟨node.nextIter, node.events.now + timeout, key, ipHeader, iif⟩]
    nextIter := node.nextIter + 1
    events := if node.timeoutEventList.isEmpty then (node.events.schedule timeout ()).1 else node.events }

/-- The fragments of a datagram, which are created for a first one, and their iterator. -/
def findFragments (node : Ipv4Reassembly Octet) (piece : Ipv4Piece Octet) (iif : UInt32) :
    Ipv4Reassembly Octet × Fragments Octet × Nat :=
  let key := fragmentKey piece.2
  match node.fragments key with
  | none =>
    ({ node.setTimeout timeout key piece.2 iif with
       fragments := Function.update node.fragments key (some (new, node.nextIter))
       records := node.records ++ [⟨node.events.now, key, .begun⟩] }, new, node.nextIter)
  | some (fragments, iter) => (node, fragments, iter)

/-- `std::list::erase`, which must be given an iterator into the list. -/
def eraseTimeout (timeoutEventList : List FragmentsTimeout) (iter : Nat) : Option (List FragmentsTimeout) :=
  if timeoutEventList.any fun timeout => timeout.iter = iter then
    some (timeoutEventList.filter fun timeout => timeout.iter ≠ iter)
  else none

/-- Returns the packet once it is complete. -/
def processFragment (node : Ipv4Reassembly Octet) (piece : Ipv4Piece Octet) (iif : UInt32) :
    Option (Ipv4Reassembly Octet × Option (List Octet)) :=
  let key := fragmentKey piece.2
  let (node, fragments, iter) := node.findFragments timeout piece iif
  let gathered := fragments.addFragment (toFragment piece)
  if gathered.isEntire then
    (eraseTimeout node.timeoutEventList iter).map fun timeoutEventList =>
      ({ node with
         fragments := Function.update node.fragments key none
         timeoutEventList := timeoutEventList
         records := node.records ++ [⟨node.events.now, key, .ended gathered.getPacket⟩] }, some gathered.getPacket)
  else some ({ node with fragments := Function.update node.fragments key (some (gathered, iter)) }, none)

/-! ## Time-outs -/

/-- A key that is not in the map would be dereferenced. -/
def handleFragmentsTimeout (node : Ipv4Reassembly Octet) (key : FragmentKey) (ipHeader : Ipv4Header) (iif : UInt32) :
    Option (Ipv4Reassembly Octet) :=
  (node.fragments key).map fun it =>
    let packet := it.1.getPartialPacket
    { node with
      fragments := Function.update node.fragments key none
      records := node.records ++ [⟨node.events.now, key, .expired ⟨ipHeader, packet, iif, packet.length > 8⟩⟩] }

/-- The loop over the list. -/
def timeoutLoop (node : Ipv4Reassembly Octet) : List FragmentsTimeout -> Option (Ipv4Reassembly Octet)
  | [] => some { node with timeoutEventList := [] }
  | timeout :: rest =>
    if timeout.deadline = node.events.now then
      (node.handleFragmentsTimeout timeout.key timeout.ipHeader timeout.iif).bind fun node => node.timeoutLoop rest
    else some { node with timeoutEventList := timeout :: rest }

/-- `Schedule` asserts that the delay is not negative. -/
def handleTimeout (node : Ipv4Reassembly Octet) : Option (Ipv4Reassembly Octet) :=
  (node.timeoutLoop node.timeoutEventList).bind fun node =>
    match node.timeoutEventList with
    | [] => some node
    | timeout :: _ =>
      let difference := timeout.deadline - node.events.now
      if difference < 0 then none else some { node with events := (node.events.schedule difference.toNat ()).1 }

/-! ## Runs -/

inductive Action (Octet : Type) where
  | processFragment (piece : Ipv4Piece Octet) (iif : UInt32)
  /-- Nothing happens up to some time. -/
  | elapse (time : Int)
  /-- The next event is run. -/
  | handleTimeout

/-- A node that has not received anything. -/
def IsNew (node : Ipv4Reassembly Octet) : Prop :=
  (∀ key, node.fragments key = none) ∧ node.timeoutEventList = [] ∧ node.events.entries = [] ∧ node.records = []

/-- A node whose time-out does not change. -/
def reassembly : System (Ipv4Reassembly Octet) (Action Octet) where
  Initial := IsNew
  step node
    | .processFragment piece iif => (node.processFragment timeout piece iif).map Prod.fst
    | .elapse time => (node.events.advance? time).map fun events => { node with events := events }
    | .handleTimeout => node.events.takeNext?.bind fun taken => { node with events := taken.2 }.handleTimeout

/-! ## Datagrams that wait -/

/-- `m_fragments`. -/
abbrev Waiting (Octet : Type) := FragmentKey -> Option (Fragments Octet × Nat)

variable {timeout : Nat} {waiting : Waiting Octet} {nextIter : Nat} {now : Int} {list : List FragmentsTimeout}
  {records : List (Record FragmentKey (List Octet) (FragmentsDrop Octet))} {key : FragmentKey}

/-- The map and the list are about the same datagrams, each with the time at which it began. -/
structure Held (timeout : Nat) (waiting : Waiting Octet) (nextIter : Nat) (now : Int)
    (records : List (Record FragmentKey (List Octet) (FragmentsDrop Octet))) (list : List FragmentsTimeout) : Prop where
  issued : ∀ it ∈ list, it.iter < nextIter
  distinct : (list.map FragmentsTimeout.iter).Nodup
  inList : ∀ key fragments iter, waiting key = some (fragments, iter) -> ∃ it ∈ list, it.key = key ∧ it.iter = iter
  inMap : ∀ it ∈ list, ∃ fragments, waiting it.key = some (fragments, it.iter)
  bounded : ∀ it ∈ list, it.deadline ≤ now + timeout
  since : ∀ it ∈ list, Record.openSince records it.key = some (it.deadline - timeout)
  idle : ∀ key, waiting key = none -> Record.openSince records key = none
  fits : Throughout (Record.Fits timeout) records

namespace Held

section

variable (held : Held timeout waiting nextIter now records list)
include held

theorem eq_of_iter {first second : FragmentsTimeout}
    (isFirst : first ∈ list) (isSecond : second ∈ list) (same : first.iter = second.iter) : first = second :=
  inj_on_of_nodup_map held.distinct isFirst isSecond same

theorem eq_of_key {first second : FragmentsTimeout}
    (isFirst : first ∈ list) (isSecond : second ∈ list) (same : first.key = second.key) : first = second := by
  obtain ⟨fragments, isFragments⟩ := held.inMap first isFirst
  obtain ⟨others, isOthers⟩ := held.inMap second isSecond
  rw [same, isOthers] at isFragments
  exact held.eq_of_iter isFirst isSecond (Prod.mk.inj (some.inj isFragments)).2.symm

theorem isSome_iff (key : FragmentKey) : (waiting key).isSome = true ↔ key ∈ list.map FragmentsTimeout.key := by
  rw [isSome_iff_exists, List.mem_map]
  constructor
  · rintro ⟨⟨fragments, iter⟩, isWaiting⟩
    obtain ⟨it, mem, isKey, -⟩ := held.inList key fragments iter isWaiting
    exact ⟨it, mem, isKey⟩
  · rintro ⟨it, mem, rfl⟩
    obtain ⟨fragments, isFragments⟩ := held.inMap it mem
    exact ⟨_, isFragments⟩

theorem nodup : (list.map FragmentsTimeout.key).Nodup := by
  apply List.Nodup.map_on
  · intro first isFirst second isSecond same
    exact held.eq_of_key isFirst isSecond same
  · exact held.distinct.of_map

theorem later {time : Int} (notBefore : now ≤ time) : Held timeout waiting nextIter time records list :=
  { held with
    bounded := by
      intro it mem
      have bound := held.bounded it mem
      omega }

/-- A fragment more. -/
theorem update {fragments gathered : Fragments Octet} {iter : Nat}
    (isWaiting : waiting key = some (fragments, iter)) :
    Held timeout (update waiting key (some (gathered, iter))) nextIter now records list :=
  { held with
    inList := by
      intro other others place isOther
      by_cases same : other = key
      · subst same
        rw [update_self] at isOther
        obtain ⟨-, rfl⟩ := Prod.mk.inj (some.inj isOther)
        exact held.inList other fragments iter isWaiting
      · rw [update_of_ne same] at isOther
        exact held.inList other others place isOther
    inMap := by
      intro it mem
      obtain ⟨others, isOthers⟩ := held.inMap it mem
      by_cases same : it.key = key
      · rw [same] at isOthers ⊢
        rw [isWaiting] at isOthers
        obtain ⟨-, rfl⟩ := Prod.mk.inj (some.inj isOthers)
        exact ⟨gathered, update_self key _ waiting⟩
      · exact ⟨others, (update_of_ne same _ waiting).trans isOthers⟩
    idle := by
      intro other isIdle
      by_cases same : other = key
      · rw [same, update_self] at isIdle
        cases isIdle
      · rw [update_of_ne same] at isIdle
        exact held.idle other isIdle }

/-- A first fragment. -/
theorem start (isNew : waiting key = none) (ipHeader : Ipv4Header)
    (iif : UInt32) : Held timeout (Function.update waiting key (some (new, nextIter))) (nextIter + 1) now
      (records ++ [⟨now, key, .begun⟩]) (list ++ [⟨nextIter, now + timeout, key, ipHeader, iif⟩]) where
  issued := by
    intro it mem
    obtain old | isLast := mem_append.mp mem
    · exact Nat.lt_succ_of_lt (held.issued it old)
    · obtain rfl := mem_singleton.mp isLast
      exact Nat.lt_succ_self nextIter
  distinct := by
    rw [map_append, map_singleton, ← concat_eq_append]
    apply List.Nodup.concat _ held.distinct
    intro known
    obtain ⟨it, mem, same⟩ := mem_map.mp known
    exact absurd same (Nat.ne_of_lt (held.issued it mem))
  inList := by
    intro other others place isOther
    by_cases same : other = key
    · subst same
      rw [Function.update_self] at isOther
      obtain ⟨-, rfl⟩ := Prod.mk.inj (some.inj isOther)
      exact ⟨_, mem_append_right _ (mem_singleton_self _), rfl, rfl⟩
    · rw [Function.update_of_ne same] at isOther
      obtain ⟨it, mem, found⟩ := held.inList other others place isOther
      exact ⟨it, mem_append_left _ mem, found⟩
  inMap := by
    intro it mem
    obtain old | isLast := mem_append.mp mem
    · obtain ⟨others, isOthers⟩ := held.inMap it old
      have ne : it.key ≠ key := by
        rintro rfl
        rw [isNew] at isOthers
        cases isOthers
      exact ⟨others, (Function.update_of_ne ne _ waiting).trans isOthers⟩
    · obtain rfl := mem_singleton.mp isLast
      exact ⟨new, Function.update_self key _ waiting⟩
  bounded := by
    intro it mem
    obtain old | isLast := mem_append.mp mem
    · exact held.bounded it old
    · obtain rfl := mem_singleton.mp isLast
      exact Int.le_refl _
  since := by
    intro it mem
    rw [Record.openSince_append]
    obtain old | isLast := mem_append.mp mem
    · obtain ⟨others, isOthers⟩ := held.inMap it old
      have ne : key ≠ it.key := by
        rintro rfl
        rw [isNew] at isOthers
        cases isOthers
      rw [if_neg ne]
      exact held.since it old
    · obtain rfl := mem_singleton.mp isLast
      rw [if_pos rfl, Int.add_sub_cancel]
      rfl
  idle := by
    intro other isIdle
    by_cases same : other = key
    · rw [same, Function.update_self] at isIdle
      cases isIdle
    · rw [Function.update_of_ne same] at isIdle
      rw [Record.openSince_append, if_neg (Ne.symm same)]
      exact held.idle other isIdle
  fits := throughout_append.mpr ⟨held.fits, held.idle key isNew⟩

/-- A datagram is done with, for some reason that fits. -/
theorem finish {it : FragmentsTimeout} (mem : it ∈ list)
    {record : Record FragmentKey (List Octet) (FragmentsDrop Octet)} (isKey : record.key = it.key)
    (closes : record.opens = none) (fits : Record.Fits timeout records record) :
    Held timeout (Function.update waiting it.key none) nextIter now (records ++ [record])
      (list.filter fun other => other.iter ≠ it.iter) where
  issued := fun other isOther => held.issued other (mem_filter.mp isOther).1
  distinct := held.distinct.sublist (filter_sublist.map _)
  inList := by
    intro other others place isOther
    by_cases same : other = it.key
    · rw [same, Function.update_self] at isOther
      cases isOther
    · rw [Function.update_of_ne same] at isOther
      obtain ⟨found, inList, rfl, rfl⟩ := held.inList other others place isOther
      refine ⟨found, mem_filter.mpr ⟨inList, decide_eq_true fun sameIter => ?_⟩, rfl, rfl⟩
      exact same (congrArg FragmentsTimeout.key (held.eq_of_iter inList mem sameIter))
  inMap := by
    intro other isOther
    obtain ⟨inList, notIt⟩ := mem_filter.mp isOther
    obtain ⟨others, isOthers⟩ := held.inMap other inList
    refine ⟨others, (Function.update_of_ne (fun same => ?_) _ waiting).trans isOthers⟩
    exact of_decide_eq_true notIt (congrArg FragmentsTimeout.iter (held.eq_of_key inList mem same))
  bounded := fun other isOther => held.bounded other (mem_filter.mp isOther).1
  since := by
    intro other isOther
    obtain ⟨inList, notIt⟩ := mem_filter.mp isOther
    rw [Record.openSince_append, if_neg]
    · exact held.since other inList
    · intro same
      have sameIter := congrArg FragmentsTimeout.iter (held.eq_of_key inList mem (same.symm.trans isKey))
      exact of_decide_eq_true notIt sameIter
  idle := by
    intro other isIdle
    rw [Record.openSince_append]
    split
    next => exact closes
    next ne =>
      rw [isKey] at ne
      rw [Function.update_of_ne (Ne.symm ne)] at isIdle
      exact held.idle other isIdle
  fits := throughout_append.mpr ⟨held.fits, fits⟩

end

end Held

/-! ## Operations -/

variable {node next : Ipv4Reassembly Octet}

/-- When the pending events are run. -/
def wakeups (node : Ipv4Reassembly Octet) : List Int :=
  node.events.entries.map Entry.ts

/-- What is held is held by the lists of a node, and an event is pending for all of it. -/
structure Kept (timeout : Nat) (node : Ipv4Reassembly Octet) : Prop where
  held : Held timeout node.fragments node.nextIter node.events.now node.records node.timeoutEventList
  covered : Covered (node.timeoutEventList.map FragmentsTimeout.deadline) node.wakeups node.events.now

theorem Kept.of_isNew (isNew : IsNew node) : Kept timeout node := by
  obtain ⟨fragments, list, events, records⟩ := isNew
  constructor
  · rw [list, records]
    constructor
    · exact fun it mem => nomatch mem
    · exact nodup_nil
    · intro key others iter isWaiting
      rw [fragments] at isWaiting
      cases isWaiting
    · exact fun it mem => nomatch mem
    · exact fun it mem => nomatch mem
    · exact fun it mem => nomatch mem
    · exact fun key _ => rfl
    · exact throughout_nil _
  · rw [list]
    exact Covered.nil _ _

theorem Kept.timely (kept : Kept timeout node) : Record.Timely timeout node.records node.events.now where
  fits := kept.held.fits
  pending := by
    intro key since isOpen
    cases isWaiting : node.fragments key with
    | none =>
      rw [kept.held.idle key isWaiting] at isOpen
      cases isOpen
    | some found =>
      obtain ⟨it, mem, rfl, -⟩ := kept.held.inList key found.1 found.2 isWaiting
      rw [kept.held.since it mem] at isOpen
      have notPast := kept.covered.notPast it.deadline (mem_map_of_mem mem)
      cases isOpen
      omega

theorem setTimeout_now (node : Ipv4Reassembly Octet) (ipHeader : Ipv4Header) (iif : UInt32) :
    (node.setTimeout timeout key ipHeader iif).events.now = node.events.now := by
  unfold setTimeout
  split <;> rfl

theorem Kept.setTimeout (kept : Kept timeout node) (ipHeader : Ipv4Header) (iif : UInt32) :
    Covered ((node.setTimeout timeout key ipHeader iif).timeoutEventList.map FragmentsTimeout.deadline)
      (node.setTimeout timeout key ipHeader iif).wakeups node.events.now := by
  unfold Ipv4Reassembly.setTimeout Ipv4Reassembly.wakeups
  rw [map_append]
  cases isList : node.timeoutEventList with
  | nil =>
    refine Covered.of_head (pairwise_singleton _ _) (le_add_of_nonneg_right (natCast_nonneg timeout)) ?_
    exact mem_map_of_mem (mem_schedule.mpr (Or.inr rfl))
  | cons first rest =>
    rw [← isList, if_neg (by simp [isList])]
    apply kept.covered.append_of_ne_nil
    · simp [isList]
    · intro other mem
      obtain ⟨it, isTimeout, rfl⟩ := mem_map.mp mem
      exact kept.held.bounded it isTimeout

variable {piece : Ipv4Piece Octet} {iif : UInt32} {events : EventQueue Unit}

theorem findFragments_of_some {fragments : Fragments Octet} {iter : Nat}
    (isWaiting : node.fragments (fragmentKey piece.2) = some (fragments, iter)) :
    node.findFragments timeout piece iif = (node, fragments, iter) := by
  rw [findFragments, isWaiting]

theorem findFragments_of_none (isNew : node.fragments (fragmentKey piece.2) = none) :
    node.findFragments timeout piece iif = ({ node.setTimeout timeout (fragmentKey piece.2) piece.2 iif with
         fragments := update node.fragments (fragmentKey piece.2) (some (new, node.nextIter))
         records := node.records ++ [⟨node.events.now, fragmentKey piece.2, .begun⟩] }, new, node.nextIter) := by
  rw [findFragments, isNew]

theorem Kept.findFragments (kept : Kept timeout node) (piece : Ipv4Piece Octet) (iif : UInt32) :
    ∃ found fragments iter, node.findFragments timeout piece iif = (found, fragments, iter) ∧ Kept timeout found ∧
      found.fragments (fragmentKey piece.2) = some (fragments, iter) := by
  cases isWaiting : node.fragments (fragmentKey piece.2) with
  | some found => exact ⟨node, found.1, found.2, findFragments_of_some isWaiting, kept, isWaiting⟩
  | none =>
    refine ⟨_, _, _, findFragments_of_none isWaiting, ⟨?_, ?_⟩, update_self _ _ _⟩
    · rw [setTimeout_now]
      exact kept.held.start isWaiting piece.2 iif
    · rw [setTimeout_now]
      exact kept.setTimeout piece.2 iif

theorem eraseTimeout_eq {it : FragmentsTimeout} (mem : it ∈ list) :
    eraseTimeout list it.iter = some (list.filter fun other => other.iter ≠ it.iter) := by
  rw [eraseTimeout, if_pos]
  exact any_eq_true.mpr ⟨it, mem, decide_eq_true rfl⟩

theorem Kept.processFragment (kept : Kept timeout node) (piece : Ipv4Piece Octet) (iif : UInt32) :
    ∃ next answer, node.processFragment timeout piece iif = some (next, answer) ∧ Kept timeout next := by
  obtain ⟨found, fragments, iter, isFound, keptFound, isWaiting⟩ := kept.findFragments piece iif
  simp only [Ipv4Reassembly.processFragment, isFound]
  split
  · obtain ⟨it, mem, isKey, rfl⟩ := keptFound.held.inList _ fragments iter isWaiting
    rw [eraseTimeout_eq mem]
    refine ⟨_, _, rfl, ?_, ?_⟩
    · have notPast := keptFound.covered.notPast it.deadline (mem_map_of_mem mem)
      rw [← isKey]
      apply keptFound.held.finish mem rfl rfl
      refine ⟨it.deadline - timeout, keptFound.held.since it mem, ?_⟩
      rw [sub_add_cancel]
      exact notPast
    · exact keptFound.covered.sublist (filter_sublist.map _)
  · exact ⟨_, _, rfl, keptFound.held.update isWaiting, keptFound.covered⟩

theorem Kept.advance (kept : Kept timeout node) {time : Int}
    (advanced : node.events.advance? time = some events) : Kept timeout { node with events := events } := by
  obtain ⟨notBefore, isNow, -, entries⟩ := advance?_spec advanced
  constructor
  · rw [isNow]
    exact kept.held.later notBefore
  · rw [wakeups, entries, isNow]
    apply kept.covered.advance
    intro wakeup isWakeup
    obtain ⟨entry, mem, rfl⟩ := mem_map.mp isWakeup
    rw [← isNow]
    exact events.future entry (entries ▸ mem)

theorem timeoutLoop_spec {wakeups : List Int} (list : List FragmentsTimeout) {node : Ipv4Reassembly Octet}
    (held : Held timeout node.fragments node.nextIter node.events.now node.records list)
    (covered : Covered (list.map FragmentsTimeout.deadline) wakeups node.events.now) :
    ∃ next, node.timeoutLoop list = some next ∧ next.events = node.events ∧
      Held timeout next.fragments next.nextIter next.events.now next.records next.timeoutEventList ∧
      (next.timeoutEventList.map FragmentsTimeout.deadline).Pairwise (· ≤ ·) ∧
      ∀ it ∈ next.timeoutEventList, node.events.now < it.deadline := by
  induction list generalizing node with
  | nil =>
    exact ⟨_, rfl, rfl, held, .nil, fun it mem => nomatch mem⟩
  | cons first rest ih =>
    obtain ⟨fragments, isFragments⟩ := held.inMap first mem_cons_self
    have others : (first :: rest).filter (fun other => other.iter ≠ first.iter) = rest := by
      have ne := (nodup_cons.mp held.distinct).1
      rw [filter_cons_of_neg (by simp), filter_eq_self]
      intro other mem
      exact decide_eq_true fun same => ne (same ▸ mem_map_of_mem mem)
    rw [timeoutLoop]
    split
    next isDue =>
      rw [handleFragmentsTimeout, isFragments]
      have fewer : (rest.map FragmentsTimeout.deadline).Sublist ((first :: rest).map FragmentsTimeout.deadline) :=
        sublist_cons_self _ _
      apply ih
      · rw [← others]
        refine held.finish mem_cons_self rfl rfl ⟨first.deadline - timeout, held.since first mem_cons_self, ?_⟩
        rw [sub_add_cancel]
        exact isDue.symm
      · exact covered.sublist fewer
    next notDue =>
      refine ⟨_, rfl, rfl, held, covered.sorted, fun it mem => ?_⟩
      have notPast := covered.notPast first.deadline mem_cons_self
      have firstLater : node.events.now < first.deadline := lt_of_le_of_ne notPast (Ne.symm notDue)
      obtain rfl | later := mem_cons.mp mem
      · exact firstLater
      · have sorted := (pairwise_cons.mp covered.sorted).1 it.deadline (mem_map_of_mem later)
        exact lt_of_lt_of_le firstLater sorted

theorem Kept.handleTimeout (kept : Kept timeout node) {event : Entry Unit}
    (taken : node.events.takeNext? = some (event, events)) :
    ∃ looped next, { node with events := events }.timeoutLoop node.timeoutEventList = some looped ∧
      (∀ it ∈ looped.timeoutEventList, event.ts < it.deadline) ∧
      { node with events := events }.handleTimeout = some next ∧ Kept timeout next := by
  obtain ⟨isEvent, notBefore, isNow, -, entries⟩ := takeNext?_spec taken
  have earliest : ∀ wakeup ∈ node.wakeups, event.ts ≤ wakeup := by
    intro wakeup isWakeup
    obtain ⟨entry, mem, rfl⟩ := mem_map.mp isWakeup
    by_cases same : entry.uid = event.uid
    · rw [eq_of_uid mem isEvent same]
    · rw [← isNow]
      exact events.future entry ((entries entry).mpr ⟨mem, same⟩)
  have held : Held timeout node.fragments node.nextIter events.now node.records node.timeoutEventList := by
    rw [isNow]
    exact kept.held.later notBefore
  have covered := kept.covered.advance earliest
  rw [← isNow] at covered ⊢
  obtain ⟨looped, isLooped, sameEvents, heldAfter, sorted, later⟩ :=
    @timeoutLoop_spec _ timeout node.wakeups node.timeoutEventList { node with events := events } held covered
  refine ⟨looped, ?_⟩
  unfold Ipv4Reassembly.handleTimeout
  rw [isLooped, bind_some]
  cases isList : looped.timeoutEventList with
  | nil => 
      refine ⟨looped, rfl, fun it mem => absurd mem not_mem_nil, rfl, heldAfter, ?_⟩
      rw [isList]
      exact Covered.nil _ _
  | cons first rest =>
    rw [isList] at later sorted
    have firstLater := later first mem_cons_self
    have notBehind : 0 ≤ first.deadline - looped.events.now := by
      rw [sameEvents]
      exact sub_nonneg_of_le (le_of_lt firstLater)
    have atFirst : looped.events.now + (first.deadline - looped.events.now).toNat = first.deadline := by
      rw [toNat_of_nonneg notBehind, add_comm, sub_add_cancel]
    rw [isList] at heldAfter
    refine ⟨_, rfl, later, if_neg (not_lt.mpr notBehind), heldAfter, ?_⟩
    apply Covered.of_head sorted
    · exact le_of_sub_nonneg notBehind
    · exact mem_map.mpr ⟨_, mem_schedule.mpr (Or.inr rfl), atFirst⟩

theorem run_kept {trace : List (Ipv4Reassembly Octet × Action Octet)} (run : (reassembly timeout).Run trace node) :
    Kept timeout node := by
  have reachable : (reassembly timeout).Reachable node := ⟨trace, run⟩
  refine reachable.invariant (Kept timeout) (fun state isNew => Kept.of_isNew isNew) ?_
  intro state action after kept stepped
  cases action with
  | processFragment piece iif =>
    obtain ⟨after', answer, isNext, keptNext⟩ := kept.processFragment piece iif
    simp only [reassembly, isNext, map_some, Option.some.injEq] at stepped
    rwa [← stepped]
  | elapse time =>
    obtain ⟨events, advanced, rfl⟩ := map_eq_some_iff.mp stepped
    exact kept.advance advanced
  | handleTimeout =>
    obtain ⟨⟨event, events⟩, taken, handled⟩ := bind_eq_some_iff.mp stepped
    obtain ⟨-, after', -, -, isNext, keptNext⟩ := kept.handleTimeout taken
    rw [isNext] at handled
    rwa [← some.inj handled]

/-! ## Every time-out is exact -/

/-- What holds of the time-outs of a node. -/
structure TimeoutsExact (timeout : Nat) (node : Ipv4Reassembly Octet) : Prop where
  /-- The map and the list have the same keys, the list each of them once. -/
  sameKeys : ∀ key, (node.fragments key).isSome = true ↔ key ∈ node.timeoutEventList.map FragmentsTimeout.key
  nodup : (node.timeoutEventList.map FragmentsTimeout.key).Nodup
  /-- No arrival erases an element that is not there. -/
  arrives : ∀ piece iif, (node.processFragment timeout piece iif).isSome = true
  /-- No time-out uses a key that is not there, and what the event is scheduled again after is
  positive. -/
  handles : ∀ event events, node.events.takeNext? = some (event, events) ->
    ({ node with events := events }.handleTimeout).isSome = true ∧
      ∃ looped, { node with events := events }.timeoutLoop node.timeoutEventList = some looped ∧
        ∀ it ∈ looped.timeoutEventList, 0 < it.deadline - event.ts
  /-- Something is scheduled for each element, no later than it is due. -/
  scheduled : ∀ it ∈ node.timeoutEventList, ∃ event ∈ node.events.entries,
    node.events.now ≤ event.ts ∧ event.ts ≤ it.deadline
  /-- A datagram waits for as long as it may, or is complete until then, or is dropped exactly then.
  -/
  exact : ∀ earlier start later, node.records = earlier ++ start :: later -> start.what = .begun ->
    Record.Exact timeout start later node.events.now
  /-- What waits has begun, and nothing else is dropped. -/
  begun : ∀ key, (node.fragments key).isSome = true -> (Record.openSince node.records key).isSome = true
  dropped : Throughout (Record.Fits timeout) node.records

/-- In every run, with any arrivals at any time. -/
theorem run_timeoutsExact (timeout : Nat) {trace : List (Ipv4Reassembly Octet × Action Octet)}
    {node : Ipv4Reassembly Octet}
    (run : (reassembly timeout).Run trace node) : TimeoutsExact timeout node := by
  have kept := run_kept run
  constructor
  · exact kept.held.isSome_iff
  · exact kept.held.nodup
  · intro piece iif
    obtain ⟨next, answer, isNext, -⟩ := kept.processFragment piece iif
    rw [isNext]
    rfl
  · intro event events taken
    obtain ⟨looped, next, isLooped, later, isNext, -⟩ := kept.handleTimeout taken
    refine ⟨?_, looped, isLooped, fun it member => Int.sub_pos_of_lt (later it member)⟩
    rw [isNext]
    rfl
  · intro it member
    obtain ⟨wakeup, isWakeup, early⟩ := kept.covered.woken (ne_nil_of_mem (List.mem_map_of_mem member))
    obtain ⟨event, isEvent, rfl⟩ := List.mem_map.mp isWakeup
    exact ⟨event, isEvent, node.events.future event isEvent, early it.deadline (List.mem_map_of_mem member)⟩
  · intro earlier start later split begun
    have timely := kept.timely
    rw [split] at timely
    exact timely.exact begun
  · intro key isSome
    obtain ⟨it, member, rfl⟩ := List.mem_map.mp ((kept.held.isSome_iff key).mp isSome)
    rw [kept.held.since it member]
    rfl
  · exact kept.held.fits

def emptyNode : Ipv4Reassembly Unit where
  fragments _ := none
  timeoutEventList := []
  nextIter := 0
  events := EventQueue.empty 3
  records := []

/-- Fragments of two datagrams, the second 10 later than the first; the first event is for both of
them. -/
def twoDropped : List (Action Unit) :=
  [.processFragment (samplePiece 0 80 true) 1, .elapse 10,
    .processFragment ((samplePiece 0 80 true).1,
      { (samplePiece 0 80 true).2 with identification := 2 }) 1, .handleTimeout,
    .elapse 35, .handleTimeout]

theorem twoDropped_timeoutsExact :
    ∃ node, (reassembly 30).exec emptyNode twoDropped = some node ∧ node.records.map Record.time = [0, 10, 30, 40] ∧
      TimeoutsExact 30 node := by
  have isSome : (((reassembly 30).exec emptyNode twoDropped).map fun node => node.records.map Record.time) =
      some [0, 10, 30, 40] := by
    decide +kernel
  obtain ⟨node, executed, times⟩ := map_eq_some_iff.mp isSome
  have isNew : (reassembly 30).Initial emptyNode := ⟨fun _ => rfl, rfl, rfl, rfl⟩
  exact ⟨node, executed, times, run_timeoutsExact 30 (System.run_of_exec isNew executed)⟩

end Ipv4Reassembly

end Ns3.Internet
