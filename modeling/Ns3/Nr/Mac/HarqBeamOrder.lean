import Mathlib.Data.Finset.Card
import Ns3.Semantics.Run

/-!
# The order of the beams of HARQ retransmissions

`GetBeamOrderRR` goes once around a queue of all beams there have been, and writes each active one
into a vector for the active ones, at its place in the queue. The queue is the same afterwards.
-/

namespace Ns3.Nr

open Semantics List Prod

/-- The keys of an `ActiveHarqMap`, in the order in which the map is gone through. -/
structure ActiveHarqMap (Beam : Type) where
  beams : List Beam
  nodup : beams.Nodup

/-- What the scheduler keeps of the beams. -/
structure NrMacSchedulerHarqRr (Beam : Type) where
  rrBeams : List Beam := []
  rrBeamsSet : Finset Beam := ∅

namespace NrMacSchedulerHarqRr

variable {Beam : Type} [DecidableEq Beam]

/-- Add new beams to the queue. -/
def addBeams (scheduler : NrMacSchedulerHarqRr Beam) (beams : List Beam) : NrMacSchedulerHarqRr Beam :=
  beams.foldl (fun scheduler el =>
    if el ∉ scheduler.rrBeamsSet then
      { rrBeams := scheduler.rrBeams ++ [el], rrBeamsSet := Insert.insert el scheduler.rrBeamsSet }
    else scheduler) scheduler

/-- The loop from some `i` on, for the rounds that are left. A beam is not to be written behind the
vector. -/
def orderLoop (active : List Beam) : (rounds i : Nat) -> (rrBeams ret : List Beam) -> Option (List Beam × List Beam)
  | 0, _, rrBeams, ret => some (ret, rrBeams)
  | _ + 1, _, [], _ => none
  | rounds + 1, i, front :: rest, ret =>
    if front ∈ active then
      if i < ret.length then orderLoop active rounds (i + 1) (rest ++ [front]) (ret.set i front) else none
    else orderLoop active rounds (i + 1) (rest ++ [front]) ret

variable [Inhabited Beam]

/-- The vector has a default beam at each place at first. -/
def getBeamOrderRR (scheduler : NrMacSchedulerHarqRr Beam) (activeHarqMap : ActiveHarqMap Beam) :
    Option (List Beam × NrMacSchedulerHarqRr Beam) :=
  let added := scheduler.addBeams activeHarqMap.beams
  (orderLoop activeHarqMap.beams added.rrBeams.length 0 added.rrBeams
    (replicate activeHarqMap.beams.length default)).map fun out => (out.1, { added with rrBeams := out.2 })

/-- The active beams of a call, and what it returns. -/
abbrev Order (Beam : Type) := ActiveHarqMap Beam × List Beam

def call (state : NrMacSchedulerHarqRr Beam × List (Order Beam)) (activeHarqMap : ActiveHarqMap Beam) :
    Option (NrMacSchedulerHarqRr Beam × List (Order Beam)) :=
  (state.1.getBeamOrderRR activeHarqMap).map fun out => (out.2, state.2 ++ [(activeHarqMap, out.1)])

/-- Some calls, on a new scheduler. -/
def run (calls : List (ActiveHarqMap Beam)) : Option (NrMacSchedulerHarqRr Beam × List (Order Beam)) :=
  calls.foldlM call ({}, [])

/-- All beams there have been, in the order in which they came. -/
def seen (calls : List (ActiveHarqMap Beam)) : List Beam :=
  calls.foldl (fun beams call => beams ++ call.beams.filter (· ∉ beams)) []

variable {scheduler : NrMacSchedulerHarqRr Beam} {active rrBeams ret : List Beam} {activeHarqMap : ActiveHarqMap Beam}

/-- The set is that of the queue. -/
structure Known (scheduler : NrMacSchedulerHarqRr Beam) : Prop where
  nodup : scheduler.rrBeams.Nodup
  same : ∀ beam, beam ∈ scheduler.rrBeamsSet ↔ beam ∈ scheduler.rrBeams

omit [Inhabited Beam] in
theorem addBeams_spec (known : scheduler.Known) {beams : List Beam} (nodup : beams.Nodup) :
    (scheduler.addBeams beams).Known ∧
      (scheduler.addBeams beams).rrBeams = scheduler.rrBeams ++ beams.filter (· ∉ scheduler.rrBeams) := by
  induction beams generalizing scheduler with
  | nil => exact ⟨known, (append_nil _).symm⟩
  | cons el rest ih =>
    obtain ⟨notInRest, nodupRest⟩ := nodup_cons.mp nodup
    rw [addBeams, foldl_cons]
    by_cases isKnown : el ∈ scheduler.rrBeamsSet
    · rw [if_neg (not_not.mpr isKnown), filter_cons_of_neg (by simpa using (known.same el).mp isKnown)]
      exact ih known nodupRest
    · have isNew : el ∉ scheduler.rrBeams := fun mem => isKnown ((known.same el).mpr mem)
      rw [if_pos isKnown, filter_cons_of_pos (by simpa using isNew)]
      have knownNext :
        Known { rrBeams := scheduler.rrBeams ++ [el], rrBeamsSet := Insert.insert el scheduler.rrBeamsSet } := by
        refine ⟨?_, fun beam => ?_⟩
        · rw [← concat_eq_append]
          exact known.nodup.concat isNew
        · rw [Finset.mem_insert, mem_append, mem_singleton, known.same, or_comm]
      obtain ⟨kept, isQueue⟩ := ih knownNext nodupRest
      refine ⟨kept, isQueue.trans ?_⟩
      rw [append_assoc, singleton_append]
      congr 2
      apply filter_congr
      intro beam mem
      have ne : beam ≠ el := fun same => notInRest (same ▸ mem)
      simp [ne]

omit [DecidableEq Beam] [Inhabited Beam] in
theorem length_concat (done : List Beam) (front : Beam) : (done ++ [front]).length = done.length + 1 :=
  length_append

omit [Inhabited Beam] in
theorem orderLoop_none {inside after done : List Beam} {beam : Beam} (isActive : beam ∈ active)
    (long : ret.length ≤ done.length + inside.length) :
    orderLoop active (inside ++ beam :: after).length done.length (inside ++ beam :: after ++ done) ret = none := by
  induction inside generalizing done ret with
  | nil =>
    have outside : ¬done.length < ret.length := Nat.not_lt.mpr long
    rw [nil_append, length_cons, cons_append, orderLoop, if_pos isActive, if_neg outside]
  | cons front inside ih =>
    rw [length_cons] at long
    have further : ∀ ret : List Beam, ret.length ≤ done.length + (inside.length + 1) ->
        orderLoop active (inside ++ beam :: after).length (done.length + 1)
          (inside ++ beam :: after ++ done ++ [front]) ret = none := by
      intro ret long
      have next := @ih ret (done ++ [front]) (by
        rw [length_concat]
        omega)
      rw [length_concat, ← append_assoc] at next
      exact next
    rw [cons_append, length_cons, cons_append, orderLoop]
    split
    · split
      · apply further
        rw [length_set]
        exact long
      · rfl
    · exact further ret long

omit [Inhabited Beam] in
theorem orderLoop_of_idle {rest done : List Beam} (idle : ∀ beam ∈ rest, beam ∉ active) :
    orderLoop active rest.length done.length (rest ++ done) ret = some (ret, done ++ rest) := by
  induction rest generalizing done with
  | nil =>
    rw [append_nil]
    rfl
  | cons front rest ih =>
    have next := @ih (done ++ [front]) fun beam mem => idle beam (mem_cons_of_mem _ mem)
    rw [length_concat, ← append_assoc] at next
    rw [length_cons, cons_append, orderLoop, if_neg (idle front mem_cons_self), next, append_assoc]
    rfl

omit [Inhabited Beam] in
/-- The active beams in front of the others are written in their order. -/
theorem orderLoop_some {first rest done written blank : List Beam} (isActive : ∀ beam ∈ first, beam ∈ active)
    (idle : ∀ beam ∈ rest, beam ∉ active) (place : written.length = done.length) (fits : blank.length = first.length) :
    orderLoop active (first ++ rest).length done.length (first ++ rest ++ done) (written ++ blank) =
      some (written ++ first, done ++ (first ++ rest)) := by
  induction first generalizing done written blank with
  | nil =>
    obtain rfl := length_eq_zero_iff.mp fits
    exact orderLoop_of_idle idle
  | cons front first ih =>
    cases blank with
    | nil => cases fits
    | cons hole blank =>
      have inside : done.length < (written ++ hole :: blank).length := by
        rw [length_append, length_cons]
        omega
      have isSet : (written ++ hole :: blank).set done.length front = written ++ [front] ++ blank := by
        rw [← place, set_append_right _ _ (Nat.le_refl _), Nat.sub_self]
        simp
      have next := @ih (done ++ [front]) (written ++ [front]) blank
        (fun beam mem => isActive beam (mem_cons_of_mem _ mem)) (by simp [place]) (by simpa using fits)
      rw [length_concat, ← append_assoc] at next
      rw [cons_append, length_cons, cons_append, orderLoop, if_pos (isActive front mem_cons_self),
        if_pos inside, isSet, next]
      simp

omit [DecidableEq Beam] [Inhabited Beam] in
/-- As many beams as there are in another list, all of them in it, are those of it. -/
theorem perm_of_subset {first second : List Beam} (nodup : first.Nodup) (subset : first ⊆ second)
    (atMost : second.length ≤ first.length) : first.Perm second :=
  (nodup.subperm subset).perm_of_length_le atMost

/-- The active beams are the first ones of the queue, or one of them is written behind the vector. -/
theorem getBeamOrderRR_eq (known : scheduler.Known) : scheduler.getBeamOrderRR activeHarqMap =
    if ∀ beam ∈ (scheduler.addBeams activeHarqMap.beams).rrBeams.take activeHarqMap.beams.length,
        beam ∈ activeHarqMap.beams then
      some ((scheduler.addBeams activeHarqMap.beams).rrBeams.take activeHarqMap.beams.length,
        scheduler.addBeams activeHarqMap.beams)
    else none := by
  obtain ⟨keeps, isQueue⟩ := addBeams_spec known activeHarqMap.nodup
  have listed : activeHarqMap.beams ⊆ (scheduler.addBeams activeHarqMap.beams).rrBeams := by
    intro beam mem
    rw [isQueue]
    by_cases old : beam ∈ scheduler.rrBeams
    · exact mem_append_left _ old
    · exact mem_append_right _ (mem_filter.mpr ⟨mem, decide_eq_true old⟩)
  unfold getBeamOrderRR
  generalize scheduler.addBeams activeHarqMap.beams = added at keeps listed
  have nodupFirst : (added.rrBeams.take activeHarqMap.beams.length).Nodup := keeps.nodup.sublist (take_sublist _ _)
  have atLeast : activeHarqMap.beams.length ≤ added.rrBeams.length := (activeHarqMap.nodup.subperm listed).length_le
  have isLength : (added.rrBeams.take activeHarqMap.beams.length).length = activeHarqMap.beams.length :=
    length_take_of_le atLeast
  have whole := take_append_drop activeHarqMap.beams.length added.rrBeams
  split
  next inOrder =>
    have same : (added.rrBeams.take activeHarqMap.beams.length).Perm activeHarqMap.beams :=
      perm_of_subset nodupFirst inOrder isLength.ge
    have idle : ∀ beam ∈ added.rrBeams.drop activeHarqMap.beams.length, beam ∉ activeHarqMap.beams := by
      intro beam isRest isActive
      have nodup := keeps.nodup
      rw [← whole] at nodup
      exact (nodup_append.mp nodup).2.2 beam (same.mem_iff.mpr isActive) beam isRest rfl
    have written := @orderLoop_some Beam _ activeHarqMap.beams _ _ [] [] (replicate activeHarqMap.beams.length default)
      inOrder idle rfl (by rw [length_replicate, isLength])
    rw [append_nil, nil_append, nil_append, nil_append, whole] at written
    simp only [length_nil] at written
    simp only [written, Option.map_some]
  next notInOrder =>
    have behind : ∃ beam ∈ activeHarqMap.beams, beam ∈ added.rrBeams.drop activeHarqMap.beams.length := by
      by_contra! allFirst
      apply notInOrder
      have inFirst : activeHarqMap.beams ⊆ added.rrBeams.take activeHarqMap.beams.length := by
        intro beam mem
        have inQueue := listed mem
        rw [← whole] at inQueue
        exact (mem_append.mp inQueue).resolve_right (allFirst beam mem)
      intro beam mem
      exact (perm_of_subset activeHarqMap.nodup inFirst isLength.le).mem_iff.mpr mem
    obtain ⟨beam, isActive, isBehind⟩ := behind
    obtain ⟨before, after, split⟩ := append_of_mem isBehind
    have queue : added.rrBeams = (added.rrBeams.take activeHarqMap.beams.length ++ before) ++ beam :: after := by
      rw [append_assoc, ← split, whole]
    have outside := @orderLoop_none Beam _ activeHarqMap.beams (replicate activeHarqMap.beams.length default)
      (added.rrBeams.take activeHarqMap.beams.length ++ before) after [] beam isActive (by
        rw [length_replicate, length_append, isLength]
        exact Nat.le_add_left_of_le (Nat.le_add_right _ _))
    rw [← queue, append_nil] at outside
    simp only [length_nil] at outside
    simp only [outside, Option.map_none]

variable {calls : List (ActiveHarqMap Beam)} {trace : List (Order Beam)}

/-- The active beams of a call are those that came first. -/
def FirstSeen (earlier : List (ActiveHarqMap Beam)) (call : ActiveHarqMap Beam) : Prop :=
  ∀ beam ∈ (seen (earlier ++ [call])).take call.beams.length, beam ∈ call.beams

/-- A call returns the beams that came first, as many as there are active ones. -/
def InOrder (earlier : List (Order Beam)) (entry : Order Beam) : Prop :=
  entry.2 = (seen (earlier.map Prod.fst ++ [entry.1])).take entry.1.beams.length

/-- What the calls of a run have left and returned. -/
structure Answers (calls : List (ActiveHarqMap Beam)) (out : NrMacSchedulerHarqRr Beam × List (Order Beam)) : Prop where
  known : out.1.Known
  queue : out.1.rrBeams = seen calls
  calls : out.2.map Prod.fst = calls
  inOrder : Throughout InOrder out.2

omit [Inhabited Beam] in
theorem seen_append (calls : List (ActiveHarqMap Beam)) (last : ActiveHarqMap Beam) :
    seen (calls ++ [last]) = seen calls ++ last.beams.filter (· ∉ seen calls) := by
  rw [seen, foldl_append]
  rfl

theorem run_append (calls : List (ActiveHarqMap Beam)) (last : ActiveHarqMap Beam) :
    run (calls ++ [last]) = (run calls).bind fun out => call out last := by
  rw [run, foldlM_append]
  congr 1
  ext out : 1
  exact bind_pure (call out last)

/-- A run succeeds exactly if the active beams are always those that came first. -/
theorem run_spec (calls : List (ActiveHarqMap Beam)) :
    (Throughout FirstSeen calls ∧ ∃ out, run calls = some out ∧ Answers calls out) ∨
      ¬Throughout FirstSeen calls ∧ run calls = none := by
  induction calls using reverseRecOn with
  | nil =>
    refine Or.inl ⟨throughout_nil _, _, rfl, ⟨?_, ?_⟩, rfl, rfl, throughout_nil _⟩
    · exact nodup_nil
    · simp
  | append_singleton calls last ih =>
    rw [run_append, throughout_append]
    obtain ⟨firstSeen, out, isOut, answers⟩ | ⟨notFirst, isNone⟩ := ih
    · rw [isOut, Option.bind_some, call, getBeamOrderRR_eq answers.known]
      obtain ⟨keeps, isQueue⟩ := addBeams_spec answers.known last.nodup
      rw [answers.queue, ← seen_append] at isQueue
      rw [isQueue]
      by_cases ofLast : ∀ beam ∈ (seen (calls ++ [last])).take last.beams.length, beam ∈ last.beams
      · rw [if_pos ofLast]
        refine Or.inl ⟨⟨firstSeen, ofLast⟩, _, rfl, keeps, isQueue, ?_, throughout_append.mpr ⟨answers.inOrder, ?_⟩⟩
        · rw [map_append, answers.calls]
          rfl
        · rw [InOrder, answers.calls]
      · rw [if_neg ofLast]
        exact Or.inr ⟨fun both => ofLast both.2, rfl⟩
    · rw [isNone]
      exact Or.inr ⟨fun both => notFirst both.1, rfl⟩

/-- Calls that each return the active beams, and of which as many in a row as there are active
beams, if these are the same, start with each of them once. -/
structure RoundRobin (trace : List (Order Beam)) : Prop where
  returns : ∀ entry ∈ trace, entry.2.Perm entry.1.beams
  takesTurns : ∀ before window after, trace = before ++ window ++ after -> ∀ active : Finset Beam,
    active.card = window.length -> (∀ entry ∈ window, entry.1.beams.toFinset = active) ->
      ∀ beam ∈ active, (window.countP fun entry => entry.2.head? = some beam) = 1

/-- Two or more active beams are never the same for as many calls in a row. -/
def NeverStay (calls : List (ActiveHarqMap Beam)) : Prop :=
  ∀ before window after, calls = before ++ window ++ after -> ∀ active : Finset Beam, active.card = window.length ->
    (∀ call ∈ window, call.beams.toFinset = active) -> window.length ≤ 1

omit [Inhabited Beam] in
theorem head?_seen_append (calls more : List (ActiveHarqMap Beam)) {beam : Beam}
    (isFirst : (seen calls).head? = some beam) : (seen (calls ++ more)).head? = some beam := by
  induction more using reverseRecOn with
  | nil =>
    rw [append_nil]
    exact isFirst
  | append_singleton more last ih =>
    rw [← append_assoc, seen_append, head?_append, ih]
    rfl

omit [Inhabited Beam] in
theorem beams_subset_seen (calls : List (ActiveHarqMap Beam)) (last : ActiveHarqMap Beam) :
    last.beams ⊆ seen (calls ++ [last]) := by
  intro beam mem
  rw [seen_append]
  by_cases old : beam ∈ seen calls
  · exact mem_append_left _ old
  · exact mem_append_right _ (mem_filter.mpr ⟨mem, decide_eq_true old⟩)

omit [Inhabited Beam] in
/-- In a row of calls with active beams the same beam is always the first one. -/
theorem exists_first (inOrder : Throughout InOrder trace) {before after window : List (Order Beam)} {entry : Order Beam}
    (split : trace = before ++ (entry :: window) ++ after) (notEmpty : ∀ other ∈ entry :: window, other.1.beams ≠ []) :
    ∃ first, ∀ other ∈ entry :: window, other.2.head? = some first := by
  have listed := beams_subset_seen (before.map fst) entry.1
  cases isSeen : seen (before.map fst ++ [entry.1]) with
  | nil =>
    rw [isSeen] at listed
    exact absurd (subset_nil.mp listed) (notEmpty entry mem_cons_self)
  | cons first rest =>
    have isFirst : (seen (before.map fst ++ [entry.1])).head? = some first := by
      rw [isSeen]
      rfl
    refine ⟨first, fun other mem => ?_⟩
    have pos : other.1.beams.length ≠ 0 := fun empty => notEmpty other mem (length_eq_zero_iff.mp empty)
    obtain rfl | later := mem_cons.mp mem
    · have ofOther := inOrder before other (window ++ after) (by simp [split])
      rw [ofOther, head?_take, if_neg pos]
      exact isFirst
    · obtain ⟨between, behind, rfl⟩ := append_of_mem later
      have ofOther := inOrder (before ++ entry :: between) other (behind ++ after) (by simp [split])
      rw [ofOther, head?_take, if_neg pos, map_append, map_cons, append_assoc, cons_append, append_cons]
      exact head?_seen_append _ _ isFirst

omit [Inhabited Beam] in
theorem seen_nodup (calls : List (ActiveHarqMap Beam)) : (seen calls).Nodup := by
  induction calls using reverseRecOn with
  | nil => exact nodup_nil
  | append_singleton calls last ih =>
    rw [seen_append]
    refine nodup_append.mpr ⟨ih, last.nodup.filter _, fun old isOld new isNew same => ?_⟩
    exact of_decide_eq_true (mem_filter.mp isNew).2 (same ▸ isOld)

omit [Inhabited Beam] in
theorem returns_active (inOrder : Throughout InOrder trace) (firstSeen : Throughout FirstSeen (trace.map fst))
    {entry : Order Beam} (mem : entry ∈ trace) : entry.2.Perm entry.1.beams := by
  obtain ⟨earlier, later, split⟩ := append_of_mem mem
  have isFirst := (throughout_map fst trace).mp firstSeen earlier entry later split
  have listed := beams_subset_seen (earlier.map fst) entry.1
  rw [inOrder earlier entry later split]
  apply perm_of_subset
  · exact (seen_nodup _).sublist (take_sublist _ _)
  · exact isFirst
  · rw [length_take_of_le (entry.1.nodup.subperm listed).length_le]

omit [Inhabited Beam] in
theorem roundRobin_iff (inOrder : Throughout InOrder trace) (firstSeen : Throughout FirstSeen (trace.map fst)) :
    RoundRobin trace ↔ NeverStay (trace.map fst) := by
  constructor
  · rintro ⟨returns, takesTurns⟩ before window after split active card same
    obtain ⟨front, behind, isTrace, isFront, rfl⟩ := map_eq_append_iff.mp split
    obtain ⟨earlier, row, rfl, rfl, rfl⟩ := map_eq_append_iff.mp isFront
    rw [length_map] at card ⊢
    have sameBeams : ∀ entry ∈ row, entry.1.beams.toFinset = active :=
      fun entry mem => same entry.1 (mem_map_of_mem mem)
    by_contra! long
    have notEmpty : ∀ entry ∈ row, entry.1.beams ≠ [] := by
      intro entry mem empty
      have none : active.card = 0 := by
        rw [← sameBeams entry mem, empty]
        rfl
      omega
    cases row with
    | nil => cases long
    | cons entry row =>
      obtain ⟨first, isFirst⟩ := exists_first inOrder isTrace notEmpty
      have isActive : first ∈ active := by
        have returned := mem_of_mem_head? (isFirst entry mem_cons_self)
        have inTrace : entry ∈ trace := by simp [isTrace]
        rw [← sameBeams entry mem_cons_self, mem_toFinset]
        exact (returns entry inTrace).mem_iff.mp returned
      have once := takesTurns earlier (entry :: row) behind isTrace active card sameBeams first isActive
      have always : 1 = (entry :: row).length :=
        once.symm.trans (countP_eq_length.mpr fun other mem => decide_eq_true (isFirst other mem))
      exact absurd always (Nat.ne_of_lt long)
  · intro neverStay
    refine ⟨fun entry mem => returns_active inOrder firstSeen mem, ?_⟩
    intro before window after split active card same beam isActive
    have short := neverStay (before.map fst) (window.map fst) (after.map fst) (by simp [split]) active
      (by rw [length_map, card]) (by
        intro call mem
        obtain ⟨entry, inWindow, rfl⟩ := mem_map.mp mem
        exact same entry inWindow)
    rw [length_map] at short
    cases window with
    | nil =>
      rw [Finset.card_eq_zero.mp card] at isActive
      exact absurd isActive (Finset.notMem_empty beam)
    | cons entry rest =>
      obtain rfl : rest = [] := length_eq_zero_iff.mp (Nat.le_zero.mp (Nat.le_of_succ_le_succ short))
      have returned := returns_active inOrder firstSeen (show entry ∈ trace by simp [split])
      have isBeams := same entry (mem_singleton_self entry)
      have isLength : entry.1.beams.length = 1 := by
        rw [← toFinset_card_of_nodup entry.1.nodup, isBeams, card]
        rfl
      obtain ⟨only, isOnly⟩ := length_eq_one_iff.mp isLength
      have isBeam : beam = only := by
        rw [← isBeams, mem_toFinset, isOnly] at isActive
        exact mem_singleton.mp isActive
      have isOrder : entry.2 = [beam] := by
        rw [isBeam]
        exact perm_singleton.mp (isOnly ▸ returned)
      simp [isOrder]

/-- Any calls answer in a round robin exactly if the active beams of each are those that came first,
and two or more of them never stay the same for as many calls in a row. -/
theorem run_roundRobin_iff (calls : List (ActiveHarqMap Beam)) :
    (∃ out, run calls = some out ∧ RoundRobin out.2) ↔ Throughout FirstSeen calls ∧ NeverStay calls := by
  obtain ⟨firstSeen, out, isOut, answers⟩ | ⟨notFirst, isNone⟩ := run_spec calls
  · have iff := roundRobin_iff answers.inOrder (answers.calls.symm ▸ firstSeen)
    rw [answers.calls] at iff
    rw [isOut]
    constructor
    · rintro ⟨other, isOther, roundRobin⟩
      cases isOther
      exact ⟨firstSeen, iff.mp roundRobin⟩
    · rintro ⟨-, neverStay⟩
      exact ⟨out, rfl, iff.mpr neverStay⟩
  · refine iff_of_false ?_ fun both => notFirst both.1
    rintro ⟨out, isOut, -⟩
    rw [isNone] at isOut
    cases isOut

/-- Both of two beams are active, and then only the second one. -/
def secondOnly : List (ActiveHarqMap Nat) :=
  [⟨[1, 2], by decide⟩, ⟨[2], by decide⟩]

/-- The second call writes behind its vector. -/
theorem secondOnly_not_roundRobin : run secondOnly = none ∧ ¬∃ out, run secondOnly = some out ∧ RoundRobin out.2 := by
  have isNone : run secondOnly = none := by rfl
  refine ⟨isNone, ?_⟩
  rintro ⟨out, isOut, -⟩
  rw [isNone] at isOut
  cases isOut

/-- With both of two beams active twice, the same one is first both times. -/
example :
    (run [⟨[1, 2], by decide⟩, ⟨[2, 1], by decide⟩]).map (fun out => out.2.map Prod.snd) = some [[1, 2], [1, 2]] := by
  rfl

end NrMacSchedulerHarqRr

end Ns3.Nr
