import Ns3.Core.Scheduler.CalendarScheduler

/-!
# The calendar as a priority queue

Resizing keeps the events, whatever width the samples give; so the calendar hands
out the least event throughout, as long as `m_qSize` counts the stored events. It
stops counting them when there are 2^32.
-/

namespace Ns3.Core.CalendarScheduler

open Ns3.Semantics PriorityQueue List Nat Calendar Event

theorem foldl_doInsert (calendar : Calendar) (events : List Event) : events.foldl doInsert calendar =
    { calendar with buckets := (events.foldl doInsert calendar).buckets } := by
  induction events generalizing calendar with
  | nil => rfl
  | cons ev rest ih =>
    rw [foldl_cons, ih]
    rfl

variable {calendar : Calendar} {stored : Multiset Event}

theorem foldl_doInsert_placed (events : List Event) (placed : Placed calendar stored)
    (representable : ∀ ev ∈ events, Representable ev) :
    Placed (events.foldl doInsert calendar) ((events : Multiset Event) + stored) := by
  induction events generalizing calendar stored with
  | nil => simpa using placed
  | cons ev rest ih =>
    have inserted := doInsert_placed placed (representable ev mem_cons_self)
    have others := ih inserted fun other mem =>
      representable other (mem_cons_of_mem ev mem)
    rwa [Multiset.add_cons, ← Multiset.cons_add, Multiset.cons_coe] at others

variable {count newSize : Nat} {ev : Event} {operation : Operation Event}
  {both : Comparison Calendar (List Event) Event}

/-- Taking samples takes out some of the events. -/
theorem samples_spec (placed : Placed calendar stored) (positioned : Positioned calendar stored)
    (enough : count ≤ stored.card) (counted : calendar.isEmpty = false) :
    ∃ taken emptied left, samples count calendar = some (taken, emptied) ∧
      stored = (taken : Multiset Event) + left ∧ Placed emptied left ∧ SameYear calendar emptied := by
  induction count generalizing calendar stored with
  | zero => exact ⟨[], calendar, stored, rfl, by simp, placed, .refl calendar⟩
  | succ count ih =>
    have nonempty : stored ≠ 0 := by
      rintro rfl
      simp at enough
    obtain ⟨ev, next, removed, least, nextPlaced, nextPositioned, -, same⟩ :=
      doRemoveNext_spec placed positioned nonempty counted
    have fewer : count ≤ (stored.erase ev).card := by
      rw [Multiset.card_erase_of_mem least.1]
      exact le_pred_of_lt enough
    obtain ⟨taken, emptied, left, sampled, split, leftPlaced, further⟩ :=
      ih nextPlaced nextPositioned fewer (by
        rw [Calendar.isEmpty, same.qSize]
        exact counted)
    refine ⟨ev :: taken, emptied, left, by simp [samples, removed, sampled], ?_, leftPlaced, same.trans further⟩
    rw [← Multiset.cons_coe, Multiset.cons_add, ← split, Multiset.cons_erase least.1]

theorem nSamples_le (qSize : UInt32) : (nSamples qSize).toNat ≤ qSize.toNat := by
  have several : (if qSize ≤ 5 then qSize else 5 + qSize / 10).toNat ≤ qSize.toNat := by
    split
    · exact le_refl _
    · rename_i many
      rw [UInt32.not_le, UInt32.lt_iff_toNat_lt] at many
      rw [UInt32.toNat_add, UInt32.toNat_div]
      simp only [UInt32.reduceToNat] at many ⊢
      omega
  unfold nSamples
  generalize (if qSize ≤ 5 then qSize else 5 + qSize / 10) = count at several
  dsimp only
  split
  · rename_i capped
    exact le_trans (le_of_lt (UInt32.lt_iff_toNat_lt.mp capped)) several
  · exact several

/-- The new width is never 0. -/
theorem newWidth_ne_zero (samples : List Event) : newWidth samples ≠ 0 := by
  have pos : ∀ separation : UInt64,
      (if separation ≤ 1 then 1 else separation : UInt64) ≠ 0 := by
    intro separation
    split
    · decide
    · rename_i wide
      rintro rfl
      exact wide (by decide)
  exact pos _

theorem calculateNewWidth_spec (placed : Placed calendar stored) (positioned : Positioned calendar stored)
    (counted : calendar.qSize.toNat ≤ stored.card) :
    ∃ width next, calculateNewWidth calendar = some (width, next) ∧ width ≠ 0 ∧
      Placed next stored ∧ next.lastPrio = calendar.lastPrio ∧ SameYear calendar next := by
  unfold calculateNewWidth
  split
  · exact ⟨1, calendar, rfl, by decide, placed, rfl, .refl calendar⟩
  · rename_i many
    have nonzero : calendar.isEmpty = false := by
      rw [Calendar.isEmpty, beq_eq_false_iff_ne]
      rintro zero
      exact many (by rw [zero]; decide)
    obtain ⟨taken, emptied, left, sampled, split, leftPlaced, same⟩ :=
      samples_spec placed positioned (le_trans (nSamples_le _) counted) nonzero
    have restored := foldl_doInsert_placed taken leftPlaced fun ev mem =>
      placed.representable ev (by
        rw [split]
        exact Multiset.mem_add.mpr (.inl (Multiset.mem_coe.mpr mem)))
    rw [← split] at restored
    refine ⟨_, _, by rw [sampled]; rfl, newWidth_ne_zero taken, restored.reposition _ _ _, rfl, ?_⟩
    have whole := foldl_doInsert emptied taken
    exact ⟨by rw [whole]; exact same.reverse, by rw [whole]; exact same.nBuckets,
      by rw [whole]; exact same.width, by rw [whole]; exact same.qSize⟩

theorem init_placed (calendar : Calendar) {nBuckets : Nat} {width : UInt64} (startPrio : UInt64)
    (pos : 0 < nBuckets) (small : nBuckets ≤ 2 ^ 16) (nonzero : width ≠ 0) :
    Placed (calendar.init nBuckets width startPrio) 0 := by
  have empty : ∀ i, (calendar.init nBuckets width startPrio).bucket i = [] := by
    intro i
    simp only [bucket, init, getD_eq_getElem?_getD, getElem?_replicate]
    split <;> rfl
  refine ⟨nonzero, pos, small, length_replicate, by simp [init], ?_, ?_, ?_⟩
  · intro i ev mem
    rw [empty] at mem
    cases mem
  · intro i
    rw [empty]
    exact .nil
  · intro ev mem
    exact absurd mem (Multiset.notMem_zero ev)

section

variable (placed : Placed calendar stored)
include placed

theorem doResize_spec {newWidth : UInt64}
    (early : calendar.lastPrio.toNat < 2 ^ 63)
    (late : ∀ ev ∈ stored, calendar.lastPrio.toNat ≤ ev.key.ts.toNat) (pos : 0 < newSize)
    (small : newSize ≤ 2 ^ 16) (nonzero : newWidth ≠ 0) :
    Placed (doResize calendar newSize newWidth) stored ∧
      Positioned (doResize calendar newSize newWidth) stored ∧
        (doResize calendar newSize newWidth).lastPrio = calendar.lastPrio ∧
          (doResize calendar newSize newWidth).qSize = calendar.qSize := by
  have fresh := init_placed calendar calendar.lastPrio pos small nonzero
  have filled := foldl_doInsert_placed calendar.buckets.flatten fresh fun ev mem =>
    placed.representable ev (by
      rw [← placed.contents]
      exact Multiset.mem_coe.mpr mem)
  rw [placed.contents, add_zero] at filled
  have whole := foldl_doInsert (calendar.init newSize newWidth calendar.lastPrio)
    calendar.buckets.flatten
  change doResize calendar newSize newWidth = { calendar.init newSize newWidth calendar.lastPrio with
    buckets := (doResize calendar newSize newWidth).buckets } at whole
  refine ⟨filled, ?_, ?_, ?_⟩
  · rw [whole]
    exact ⟨rfl, rfl, early, late⟩
  · rw [whole]
    rfl
  · rw [whole]
    rfl

section

variable (positioned : Positioned calendar stored)
include positioned

section

variable (counted : calendar.qSize.toNat ≤ stored.card)
include counted

theorem resize_spec (pos : 0 < newSize) (small : newSize ≤ 2 ^ 16) :
    ∃ next, resize calendar newSize = some next ∧ Placed next stored ∧ Positioned next stored ∧
      next.lastPrio = calendar.lastPrio ∧ next.qSize = calendar.qSize := by
  obtain ⟨width, sampled, calculated, nonzero, sampledPlaced, sameLast, same⟩ :=
    calculateNewWidth_spec placed positioned counted
  obtain ⟨resized, repositioned, last, size⟩ := doResize_spec sampledPlaced
    (by rw [sameLast]; exact positioned.lastPrio) (by rw [sameLast]; exact positioned.late)
    pos small nonzero
  exact ⟨_, by rw [resize, calculated]; rfl, resized, repositioned, last.trans sameLast, size.trans same.qSize⟩

theorem resizeUp_spec :
    ∃ next, resizeUp calendar = some next ∧ Placed next stored ∧ Positioned next stored ∧
      next.lastPrio = calendar.lastPrio ∧ next.qSize = calendar.qSize := by
  unfold resizeUp
  split
  · rename_i grows
    have pos := placed.positive
    exact resize_spec placed positioned counted (by omega) (by omega)
  · exact ⟨calendar, rfl, placed, positioned, rfl, rfl⟩

theorem resizeDown_spec :
    ∃ next, resizeDown calendar = some next ∧ Placed next stored ∧ Positioned next stored ∧
      next.lastPrio = calendar.lastPrio ∧ next.qSize = calendar.qSize := by
  unfold resizeDown
  split
  · rename_i shrinks
    have small := placed.small
    exact resize_spec placed positioned counted (by omega) (by omega)
  · exact ⟨calendar, rfl, placed, positioned, rfl, rfl⟩

end

end

end

/-- The calendar holds the stored events, and counts them. -/
structure Represents (calendar : Calendar) (stored : Multiset Event) : Prop where
  placed : Placed calendar stored
  positioned : Positioned calendar stored
  counted : calendar.qSize.toNat = stored.card

/-- An inserted event is not earlier than the last one handed out. -/
def Arrives (calendar : Calendar) : Operation Event -> Prop
  | .insert ev => Representable ev ∧ calendar.lastPrio.toNat ≤ ev.key.ts.toNat
  | _ => True

/-- An insertion does not make the number of events 2^32. -/
def Countable (stored : Multiset Event) : Operation Event -> Prop
  | .insert _ => stored.card + 1 < 2 ^ 32
  | _ => True

theorem Represents.not_isEmpty (rep : Represents calendar stored) (nonempty : stored ≠ 0) :
    calendar.isEmpty = false := by
  rw [Calendar.isEmpty, beq_eq_false_iff_ne]
  intro zero
  have counted := rep.counted
  rw [zero] at counted
  exact nonempty (Multiset.card_eq_zero.mp counted.symm)

theorem Placed.withSize (placed : Placed calendar stored) (qSize : UInt32) :
    Placed { calendar with qSize := qSize } stored :=
  ⟨placed.width, placed.positive, placed.small, placed.length, placed.contents, placed.hashed,
    placed.sorted, placed.representable⟩

section

variable (rep : Represents calendar stored)
include rep

theorem toNat_pred (nonempty : stored ≠ 0) : (calendar.qSize - 1).toNat = stored.card - 1 := by
  have pos := Multiset.card_pos.mpr nonempty
  have counted := rep.counted
  have one : (1 : UInt32) ≤ calendar.qSize := by
    rw [UInt32.le_iff_toNat_le, counted]
    exact pos
  rw [UInt32.toNat_sub_of_le _ _ one, counted]
  rfl

theorem insert_spec (representable : Representable ev)
    (late : calendar.lastPrio.toNat ≤ ev.key.ts.toNat) :
    ∃ next, insert calendar ev = some next ∧ Placed next (ev ::ₘ stored) ∧
      Positioned next (ev ::ₘ stored) ∧ next.lastPrio = calendar.lastPrio ∧
        next.qSize.toNat = (stored.card + 1) % 2 ^ 32 := by
  have placed := (doInsert_placed rep.placed representable).withSize (calendar.qSize + 1)
  have positioned : Positioned { doInsert calendar ev with qSize := calendar.qSize + 1 } (ev ::ₘ stored) := by
    refine ⟨rep.positioned.lastBucket, rep.positioned.bucketTop, rep.positioned.lastPrio, fun other mem => ?_⟩
    rcases Multiset.mem_cons.mp mem with rfl | old
    · exact late
    · exact rep.positioned.late other old
  have size : (calendar.qSize + 1).toNat = (stored.card + 1) % 2 ^ 32 := by
    rw [UInt32.toNat_add, rep.counted]
    rfl
  obtain ⟨next, resized, nextPlaced, nextPositioned, last, sameSize⟩ :=
    resizeUp_spec placed positioned (by
      rw [Multiset.card_cons]
      exact le_trans (le_of_eq size) (mod_le _ _))
  exact ⟨next, resized, nextPlaced, nextPositioned, last, sameSize ▸ size⟩

theorem removeNext_spec (nonempty : stored ≠ 0) :
    ∃ ev next, removeNext calendar = some (ev, next) ∧ Least rank ev stored ∧
      Represents next (stored.erase ev) ∧ next.lastPrio = ev.key.ts := by
  obtain ⟨ev, emptied, removed, least, placed, positioned, last, same⟩ := doRemoveNext_spec
    rep.placed rep.positioned nonempty (rep.not_isEmpty nonempty)
  have size : (emptied.qSize - 1).toNat = (stored.erase ev).card := by
    rw [same.qSize, toNat_pred rep nonempty, Multiset.card_erase_of_mem least.1]
    rfl
  obtain ⟨next, resized, nextPlaced, nextPositioned, sameLast, sameSize⟩ :=
    resizeDown_spec (placed.withSize (emptied.qSize - 1))
      ⟨positioned.lastBucket, positioned.bucketTop, positioned.lastPrio, positioned.late⟩
      (le_of_eq size)
  exact ⟨ev, next, by simp [removeNext, removed, resized], least,
    ⟨nextPlaced, nextPositioned, sameSize ▸ size⟩, sameLast.trans last⟩

theorem remove_spec (distinct : Distinct uid stored) (mem : ev ∈ stored) :
    ∃ next, remove calendar ev = some next ∧ Represents next (stored.erase ev) ∧
      next.lastPrio = calendar.lastPrio := by
  have placed := rep.placed
  have nonempty : stored ≠ 0 := by
    rintro rfl
    exact Multiset.notMem_zero ev mem
  have inBucket := (mem_stored_iff placed).mp mem
  have removed := ListScheduler.remove_eq (fun other inside same => distinct other
    (mem_stored_of_bucket placed inside) ev mem same) inBucket
  have inside : calendar.hash ev.key.ts < calendar.buckets.length := by
    rw [placed.length]
    exact hash_lt placed.positive _
  obtain ⟨others, before, after⟩ :=
    flatten_modify calendar.buckets (fun bucket => bucket.erase ev) inside
  have changed : calendar.buckets.set (calendar.hash ev.key.ts)
      ((calendar.bucket (calendar.hash ev.key.ts)).erase ev) =
        calendar.buckets.modify (calendar.hash ev.key.ts) fun bucket => bucket.erase ev := by
    rw [modify_eq_set_getElem?]
    simp [bucket, inside]
  have size : (calendar.qSize - 1).toNat = (stored.erase ev).card := by
    rw [toNat_pred rep nonempty, Multiset.card_erase_of_mem mem]
    rfl
  have smaller : Placed { calendar with
      buckets := calendar.buckets.modify (calendar.hash ev.key.ts) fun bucket => bucket.erase ev
      qSize := calendar.qSize - 1 } (stored.erase ev) := by
    refine ⟨placed.width, placed.positive, placed.small, ?_, ?_, fun i other kept => ?_,
      fun i => ?_, fun other kept => placed.representable other (Multiset.mem_of_mem_erase kept)⟩
    · simpa using placed.length
    · dsimp only
      rw [after, ← placed.contents, before]
      change _ = ((calendar.bucket (calendar.hash ev.key.ts) : Multiset Event) + others).erase ev
      rw [Multiset.erase_add_left_pos _ (Multiset.mem_coe.mpr inBucket)]
      rfl
    · change other ∈ (calendar.buckets.modify _ _).getD i [] at kept
      rw [bucket_modify calendar _ _ inside] at kept
      split at kept
      · rename_i here
        rw [here]
        exact placed.hashed _ other (mem_of_mem_erase kept)
      · exact placed.hashed i other kept
    · change ((calendar.buckets.modify _ _).getD i []).Pairwise _
      rw [bucket_modify calendar _ _ inside]
      split
      · exact (placed.sorted _).sublist erase_sublist
      · exact placed.sorted i
  obtain ⟨next, resized, nextPlaced, nextPositioned, last, sameSize⟩ :=
    resizeDown_spec smaller ⟨rep.positioned.lastBucket, rep.positioned.bucketTop,
      rep.positioned.lastPrio, fun other kept => rep.positioned.late other
        (Multiset.mem_of_mem_erase kept)⟩ (le_of_eq size)
  refine ⟨next, ?_, ⟨nextPlaced, nextPositioned, sameSize ▸ size⟩, last⟩
  rw [remove, rep.not_isEmpty nonempty, if_neg Bool.false_ne_true, removed, Option.bind_some, changed, resized]

end

/-- An inserted event has a representable time that is not before that of the last
event handed out. -/
def OnTime (both : Comparison Calendar (List Event) Event) : Operation Event -> Prop
  | .insert ev => Representable ev ∧ ∀ last ∈ both.returned.getLast?, last.key.ts.toNat ≤ ev.key.ts.toNat
  | _ => True

theorem step_spec (reverse : Bool) (rep : Represents calendar stored)
    (distinct : Distinct uid stored) (admissible : Admissible uid stored operation)
    (arrives : Arrives calendar operation) :
    ∃ next output, (scheduler reverse).step calendar operation = some (next, output) ∧
      (Represents next (operation.leaves stored output) ↔ Countable stored operation) ∧
        next.lastPrio = output.elim calendar.lastPrio (fun ev => ev.key.ts) ∧ (operation = .removeNext ->
            ∃ first, output = some first ∧ Least rank first stored) ∧
          (operation ≠ .removeNext -> output = none) := by
  cases operation with
  | insert ev =>
    obtain ⟨next, inserted, placed, positioned, last, size⟩ :=
      insert_spec rep arrives.1 arrives.2
    refine ⟨next, none, by simp [Queue.step, scheduler, inserted], ?_, last, by simp, by simp⟩
    constructor
    · intro after
      have counted := after.counted
      rw [size, Operation.leaves, Multiset.card_cons] at counted
      rw [Countable, ← counted]
      exact mod_lt _ (by decide)
    · intro countable
      refine ⟨placed, positioned, ?_⟩
      rw [size, Operation.leaves, Multiset.card_cons]
      exact mod_eq_of_lt countable
  | remove ev =>
    obtain ⟨next, removed, after, last⟩ := remove_spec rep distinct admissible
    exact ⟨next, none, by simp [Queue.step, scheduler, removed], iff_of_true after trivial, last,
      by simp, by simp⟩
  | removeNext =>
    obtain ⟨ev, next, removed, least, after, last⟩ := removeNext_spec rep admissible
    exact ⟨next, some ev, by simp [Queue.step, scheduler, removed], iff_of_true after trivial,
      last, fun _ => ⟨ev, rfl, least⟩, by simp⟩

theorem construct_represents (reverse : Bool) : Represents (construct reverse) 0 where
  placed := init_placed _ 0 (by decide) (by decide) (by decide)
  positioned := ⟨rfl, rfl, show (0 : UInt64).toNat < 2 ^ 63 by decide, fun _ mem => absurd mem (Multiset.notMem_zero _)⟩
  counted := rfl

/-- The position is that of the last event handed out. -/
def Follows (both : Comparison Calendar (List Event) Event) : Prop :=
  both.store.lastPrio = both.returned.getLast?.elim 0 fun ev => ev.key.ts

theorem OnTime.arrives (onTime : OnTime both operation) (follows : Follows both) : Arrives both.store operation := by
  cases operation with
  | insert ev =>
    refine ⟨onTime.1, ?_⟩
    rw [follows]
    cases last : both.returned.getLast? with
    | none => exact zero_le _
    | some event => exact onTime.2 event last
  | remove ev | removeNext => trivial

/-- The calendar scheduler is a sorted queue, and has handed out what the list
scheduler has. -/
def IsSortedQueue (reverse : Bool) (both : Comparison Calendar (List Event) Event) : Prop :=
  Agrees Event.uid Event.rank (scheduler reverse) Represents OnTime both

theorem agrees_of_represents {reverse : Bool}
    (represents : Represents both.store both.stored) (distinct : Distinct uid both.stored)
    (follows : Follows both) (same : both.referenceReturned = both.returned) :
    IsSortedQueue reverse both where
  represents := represents
  returns := fun operation admissible onTime => by
    obtain ⟨next, output, stepped, -⟩ :=
      step_spec reverse represents distinct admissible (onTime.arrives follows)
    rw [stepped]
    rfl
  peekNext := fun nonempty => peekNext_spec represents.placed represents.positioned nonempty
    (represents.not_isEmpty nonempty)
  removeNext := fun nonempty => by
    obtain ⟨ev, next, removed, least, -⟩ := removeNext_spec represents nonempty
    exact ⟨ev, next, removed, least⟩
  same := same

/-- What holds between the operations of a run: the stored events are distinct, the
list scheduler holds them too, and the position is that of the last event. -/
structure InStep (both : Comparison Calendar (List Event) Event) : Prop where
  distinct : Distinct Event.uid both.stored
  list : ∃ list, both.reference = some list ∧ ListScheduler.Represents list both.stored
  follows : Follows both

/-- In a run on admissible operations that are on time, for either order of the
buckets, the calendar counts and stores exactly the events inserted and not removed,
its width is not 0, every operation returns, and the least event is handed out each
time, as the list scheduler does, exactly when no insertion makes the number of
events 2^32. -/
theorem calendarScheduler_iff (reverse : Bool)
    {trace : List (Comparison Calendar (List Event) Event × Operation Event)}
    {both : Comparison Calendar (List Event) Event}
    (run : (sideBySide (scheduler reverse) ListScheduler.scheduler Event.uid).Run trace both)
    (onTime : ∀ step ∈ trace, OnTime step.1 step.2) :
    ((∀ step ∈ trace, IsSortedQueue reverse step.1) ∧ IsSortedQueue reverse both) ↔
      ∀ step ∈ trace, Countable step.1.stored step.2 := by
  refine System.Run.always_iff InStep (IsSortedQueue reverse) OnTime
    (fun both operation => Countable both.stored operation) ?_ ?_ run onTime
  · rintro both rfl
    exact ⟨⟨fun _ member => absurd member (Multiset.notMem_zero _), ⟨_, rfl, ListScheduler.implements.empty⟩, rfl⟩,
      agrees_of_represents (construct_represents reverse)
        (fun _ member => absurd member (Multiset.notMem_zero _)) rfl rfl⟩
  · rintro both operation next ⟨distinct, ⟨list, reference, inList⟩, follows⟩ agrees onTime transition
    obtain ⟨admissible, store, output, stepped, rfl, stored, returned, answered⟩ :=
      sideBySide_step transition
    obtain ⟨_, _, known, represents, last, least, silent⟩ :=
      step_spec reverse agrees.represents distinct admissible (onTime.arrives follows)
    cases stepped.symm.trans known
    obtain ⟨nextList, answer, nextInList⟩ := ListScheduler.implements.answers
      (fun _ _ => Event.uid_eq_of_rank) inList distinct admissible least silent
    obtain ⟨nextReference, nextReturned⟩ := answered (some (nextList, output)) (by rw [reference]; exact answer)
    have nextSame : next.referenceReturned = next.returned := by
      rw [nextReturned, returned, agrees.same]
      rfl
    rw [← stored] at represents
    have nextDistinct : Distinct Event.uid next.stored := by
      rw [stored]
      exact distinct.leaves admissible output
    have nextFollows : Follows next := by
      rw [Follows, last, returned, follows]
      cases output with
      | none => simp
      | some event => simp
    refine ⟨⟨fun after => represents.mp after.represents, fun countable =>
      agrees_of_represents (represents.mpr countable) nextDistinct nextFollows nextSame⟩,
      fun _ => ⟨nextDistinct, ⟨nextList, nextReference, ?_⟩, nextFollows⟩⟩
    rw [stored]
    exact nextInList

/-- Enough events to resize, one of them removed, and the first one handed out. -/
def resizing : List (Operation Event) :=
  [.insert (eventAt 7 5), .insert (eventAt 3 6), .insert (eventAt 3 7), .insert (eventAt 900 8),
    .insert (eventAt 50 9), .remove (eventAt 900 8), .removeNext, .insert (eventAt 3 10)]

/-- The resizing run, for the default order of the buckets. -/
def resizingTrace : List (Comparison Calendar (List Event) Event × Operation Event) :=
  (sideBySide (scheduler false) ListScheduler.scheduler Event.uid).steps
    ⟨construct false, some [], 0, [], []⟩ resizing

theorem resizing_run : ∃ both, (sideBySide (scheduler false) ListScheduler.scheduler uid).Run resizingTrace both := by
  have executed : ((sideBySide (scheduler false) ListScheduler.scheduler uid).exec
      ⟨construct false, some [], 0, [], []⟩ resizing).isSome := by
    decide +kernel
  obtain ⟨both, same⟩ := Option.isSome_iff_exists.mp executed
  exact ⟨both, System.run_of_exec rfl same⟩

instance (both : Comparison Calendar (List Event) Event) (operation : Operation Event) :
    Decidable (OnTime both operation) :=
  match operation with
  | .insert ev => inferInstanceAs (Decidable (ev.key.ts.toNat < 2 ^ 63 ∧
      ∀ last ∈ both.returned.getLast?, last.key.ts.toNat ≤ ev.key.ts.toNat))
  | .remove _ | .removeNext => inferInstanceAs (Decidable True)

theorem resizing_calendarScheduler_iff : ∃ both,
    ((∀ step ∈ resizingTrace, IsSortedQueue false step.1) ∧ IsSortedQueue false both) ↔
      ∀ step ∈ resizingTrace, Countable step.1.stored step.2 := by
  obtain ⟨both, run⟩ := resizing_run
  exact ⟨both, calendarScheduler_iff false run (by decide +kernel)⟩

/-- The events with the first uids, all at the time 0. -/
def firstEvents (count : Nat) : Multiset Event :=
  ((range count).map fun uid => eventAt 0 (UInt32.ofNat uid) : List Event)

theorem firstEvents_run (known : count ≤ 2 ^ 32) : ∃ trace both,
    (sideBySide (scheduler false) ListScheduler.scheduler uid).Run trace both ∧
      (∀ step ∈ trace, OnTime step.1 step.2) ∧ both.stored = firstEvents count ∧
        both.returned = [] ∧ both.store.lastPrio = 0 ∧ (count < 2 ^ 32 -> Represents both.store both.stored) := by
  induction count with
  | zero =>
    exact ⟨[], ⟨construct false, some [], 0, [], []⟩, .initial rfl, by simp, rfl, rfl, rfl,
      fun _ => construct_represents false⟩
  | succ count ih =>
    obtain ⟨trace, both, run, onTime, stored, returned, last, rep⟩ :=
      ih (by omega)
    let ev := eventAt 0 (UInt32.ofNat count)
    have fresh : Admissible uid both.stored (.insert ev) := by
      intro other mem same
      rw [stored] at mem
      obtain ⟨uid, below, rfl⟩ := List.mem_map.mp (Multiset.mem_coe.mp mem)
      have equal : UInt32.ofNat uid = UInt32.ofNat count := same
      have bounded := mem_range.mp below
      rw [← UInt32.toNat_inj, UInt32.toNat_ofNat_of_lt' (show uid < 2 ^ 32 by omega),
        UInt32.toNat_ofNat_of_lt' (show count < 2 ^ 32 by omega)] at equal
      omega
    have now : OnTime both (.insert ev) := by
      refine ⟨show (0 : UInt64).toNat < 2 ^ 63 by decide, ?_⟩
      rw [returned]
      intro event mem
      cases mem
    obtain ⟨next, inserted, placed, positioned, sameLast, size⟩ := insert_spec
      (rep (by omega)) now.1 (by rw [last]; exact zero_le _)
    have stepped : (scheduler false).step both.store (.insert ev) = some (next, none) := by
      simp [Queue.step, scheduler, inserted]
    obtain ⟨after, moves, rfl, leaves, nothing⟩ :=
      exists_sideBySide_step ListScheduler.scheduler fresh stepped
    have whole : after.stored = firstEvents (count + 1) := by
      rw [leaves, stored, firstEvents, firstEvents, range_succ, map_append, Multiset.coe_eq_coe.mpr perm_append_comm]
      rfl
    refine ⟨_, after, run.step moves, ?_, whole, by simp [nothing, returned], sameLast.trans last, fun few => ?_⟩
    · rw [forall_mem_append, forall_mem_singleton]
      exact ⟨onTime, now⟩
    · rw [leaves]
      refine ⟨placed, positioned, ?_⟩
      rw [size, Operation.leaves, Multiset.card_cons, stored]
      simp only [firstEvents, Multiset.coe_card, length_map, length_range]
      exact mod_eq_of_lt few

/-- The insertion that stores an event for every uid makes the calendar count none. -/
theorem all_uids_uncounted : ∃ trace both,
    (sideBySide (scheduler false) ListScheduler.scheduler Event.uid).Run trace both ∧
      (∀ step ∈ trace, OnTime step.1 step.2) ∧
        ¬((∀ step ∈ trace, IsSortedQueue false step.1) ∧ IsSortedQueue false both) := by
  obtain ⟨trace, both, run, onTime, stored, -⟩ := firstEvents_run (Nat.le_refl (2 ^ 32))
  refine ⟨trace, both, run, onTime, fun sorted => ?_⟩
  have counted := sorted.2.represents.counted
  rw [stored, firstEvents, Multiset.coe_card, length_map, length_range] at counted
  have bounded := both.store.qSize.toNat_lt
  omega

end Ns3.Core.CalendarScheduler
