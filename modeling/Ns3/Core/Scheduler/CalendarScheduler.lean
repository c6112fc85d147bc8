import Mathlib.Algebra.Order.Group.Multiset
import Mathlib.Data.UInt
import Ns3.Core.Scheduler.ListScheduler

/-!
# The calendar scheduler

`CalendarScheduler` distributes its events over buckets of one `width` of time each, in every year
of `nBuckets` widths. The next event is searched through one year from the last bucket on; if there
is none, it is the least of all. Resizing samples the first events for a new width and inserts all
again. There are never more than 2^16 buckets, so their numbers are natural ones.
-/

namespace Ns3.Core.CalendarScheduler

open Ns3.Semantics PriorityQueue List Event

structure Calendar where
  reverse : Bool
  buckets : List (List Event)
  nBuckets : Nat
  width : UInt64
  lastBucket : Nat
  bucketTop : UInt64
  lastPrio : UInt64
  qSize : UInt32

variable (reverse : Bool)

/-- `NextEvent`. -/
def nextEvent (bucket : List Event) : Option Event :=
  if reverse then bucket.getLast? else bucket.head?

/-- `Order`. -/
def order (newEvent it : Event) : Bool :=
  if reverse then it.lt newEvent else newEvent.lt it

/-- `Pop`. -/
def pop (bucket : List Event) : List Event :=
  if reverse then bucket.dropLast else bucket.tail

variable (calendar : Calendar)

/-- `Hash`. -/
def Calendar.hash (ts : UInt64) : Nat :=
  (ts / calendar.width).toNat % calendar.nBuckets

/-- `Init`. -/
def Calendar.init (nBuckets : Nat) (width startPrio : UInt64) : Calendar :=
  { calendar with
    buckets := replicate nBuckets []
    nBuckets := nBuckets
    width := width
    lastPrio := startPrio
    lastBucket := (startPrio / width).toNat % nBuckets
    bucketTop := (startPrio / width + 1) * width }

/-- A new `CalendarScheduler` with its attribute `Reverse`. -/
def construct : Calendar :=
  { reverse := reverse
    buckets := []
    nBuckets := 0
    width := 0
    lastBucket := 0
    bucketTop := 0
    lastPrio := 0
    qSize := 0 : Calendar }.init 2 1 0

/-- A bucket of the array. -/
def Calendar.bucket (i : Nat) : List Event :=
  calendar.buckets.getD i []

/-- `DoInsert`. -/
def doInsert (ev : Event) : Calendar :=
  { calendar with
    buckets := calendar.buckets.modify (calendar.hash ev.key.ts)
      (orderedInsert (fun ev it => order calendar.reverse ev it) ev) }

/-- `IsEmpty`. -/
def Calendar.isEmpty : Bool :=
  calendar.qSize == 0

/-- How the search through the year ends: in a bucket whose first event is below
its top, or with the least of the first events and its bucket. -/
inductive Found where
  | inYear (bucket : Nat) (bucketTop : UInt64) (next : Event)
  | later (min : Event) (minBucket : Option Nat)

/-- The loop of `PeekNext` and of `DoRemoveNext`, which only differ in what they
start the minimum with. The loop ends when it is back at the last bucket; `fuel`
bounds its rounds. -/
def search (calendar : Calendar) : Nat -> Nat -> UInt64 -> Event -> Option Nat -> Option Found
  | 0, _, _, _, _ => none
  | fuel + 1, i, bucketTop, min, minBucket =>
    let further (min : Event) (minBucket : Option Nat) :=
      if (i + 1) % calendar.nBuckets = calendar.lastBucket then
        some (.later min minBucket)
      else
        search calendar fuel ((i + 1) % calendar.nBuckets) (bucketTop + calendar.width) min minBucket
    match nextEvent calendar.reverse (calendar.bucket i) with
    | none => further min minBucket
    | some next =>
      if next.key.ts < bucketTop then
        some (.inYear i bucketTop next)
      else if next.lt min then
        further next (some i)
      else
        further min minBucket

/-- The search of the year that begins at the last bucket. -/
def searchYear (min : Event) : Option Found :=
  search calendar calendar.nBuckets calendar.lastBucket calendar.bucketTop min none

/-- The initial `minEvent` of `PeekNext`. -/
def minEvent : Event :=
  ⟨0, 18446744073709551615, 4294967295, 0⟩

/-- An event with the initial `minKey` of `DoRemoveNext`. -/
def minKeyEvent : Event :=
  ⟨0, 18446744073709551615, 0, 4294967295⟩

def peekNext : Option Event :=
  if calendar.isEmpty then
    none
  else
    (searchYear calendar minEvent).map fun
      | .inYear _ _ next => next
      | .later min _ => min

/-- A bucket without its next event. -/
def Calendar.popAt (i : Nat) : Calendar :=
  { calendar with buckets := calendar.buckets.modify i (pop calendar.reverse) }

/-- `DoRemoveNext`. -/
def doRemoveNext : Option (Event × Calendar) :=
  if calendar.isEmpty then
    none
  else
    match searchYear calendar minKeyEvent with
    | none => none
    | some (.inYear i bucketTop next) =>
      some (next, { calendar.popAt i with
        lastBucket := i
        lastPrio := next.key.ts
        bucketTop := bucketTop })
    | some (.later _ none) => none
    | some (.later min (some minBucket)) =>
      (nextEvent calendar.reverse (calendar.bucket minBucket)).map fun next =>
        (next, { calendar.popAt minBucket with
          lastPrio := min.key.ts
          lastBucket := calendar.hash min.key.ts
          bucketTop := (min.key.ts / calendar.width + 1) * calendar.width })

/-- The first events of the queue, taken out of it. -/
def samples : Nat -> Calendar -> Option (List Event × Calendar)
  | 0, calendar => some ([], calendar)
  | count + 1, calendar =>
    (doRemoveNext calendar).bind fun (ev, calendar) =>
      (samples count calendar).map fun (rest, calendar) => (ev :: rest, calendar)

/-- The separations of consecutive samples. -/
def separations : List Event -> List UInt64
  | cur :: next :: rest => (next.key.ts - cur.key.ts) :: separations (next :: rest)
  | _ => []

/-- The width for some samples, three times the sum of the separations up to twice
their average. -/
def newWidth (samples : List Event) : UInt64 :=
  let totalSeparation := (separations samples).sum
  let twiceAvg := totalSeparation / (UInt64.ofNat samples.length - 1) * 2
  let totalSeparation := ((separations samples).filter (· ≤ twiceAvg)).sum
  max (totalSeparation * 3) 1

/-- The number of samples. -/
def nSamples (qSize : UInt32) : UInt32 :=
  let nSamples := if qSize ≤ 5 then qSize else 5 + qSize / 10
  if 25 < nSamples then 25 else nSamples

/-- `CalculateNewWidth`, with the queue it leaves: the samples are put back and the
position is restored. -/
def calculateNewWidth : Option (UInt64 × Calendar) :=
  if calendar.qSize < 2 then
    some (1, calendar)
  else
    (samples (nSamples calendar.qSize).toNat calendar).map fun (samples, emptied) =>
      (newWidth samples, { samples.foldl doInsert emptied with
        lastBucket := calendar.lastBucket
        bucketTop := calendar.bucketTop
        lastPrio := calendar.lastPrio })

/-- `DoResize`. -/
def doResize (newSize : Nat) (newWidth : UInt64) : Calendar :=
  calendar.buckets.flatten.foldl doInsert (calendar.init newSize newWidth calendar.lastPrio)

/-- `Resize`. -/
def resize (newSize : Nat) : Option Calendar :=
  (calculateNewWidth calendar).map fun (newWidth, calendar) => doResize calendar newSize newWidth

/-- `ResizeUp`. -/
def resizeUp : Option Calendar :=
  if calendar.nBuckets * 2 < calendar.qSize.toNat ∧ calendar.nBuckets < 32768 then
    resize calendar (calendar.nBuckets * 2)
  else
    some calendar

/-- `ResizeDown`. -/
def resizeDown : Option Calendar :=
  if calendar.qSize.toNat < calendar.nBuckets / 2 then
    resize calendar (calendar.nBuckets / 2)
  else
    some calendar

def insert (ev : Event) : Option Calendar :=
  let calendar := doInsert calendar ev
  resizeUp { calendar with qSize := calendar.qSize + 1 }

def removeNext : Option (Event × Calendar) :=
  (doRemoveNext calendar).bind fun (ev, calendar) =>
    (resizeDown { calendar with qSize := calendar.qSize - 1 }).map fun calendar => (ev, calendar)

/-- `Remove`, which asserts that the event is in its bucket. -/
def remove (ev : Event) : Option Calendar :=
  let bucket := calendar.hash ev.key.ts
  if calendar.isEmpty then
    none
  else
    (ListScheduler.remove ev (calendar.bucket bucket)).bind fun rest =>
      resizeDown { calendar with
        buckets := calendar.buckets.set bucket rest
        qSize := calendar.qSize - 1 }

def scheduler : Scheduler Calendar where
  empty := construct reverse
  isEmpty := Calendar.isEmpty
  insert := insert
  remove := remove
  peekNext := peekNext
  removeNext := removeNext

/-! ## Buckets -/

/-- The order of the events of a bucket. -/
def NotAfter (first second : Event) : Prop :=
  if reverse then second.rank ≤ first.rank else first.rank ≤ second.rank

variable {reverse : Bool} {first second ev initial min : Event}

theorem NotAfter.trans {third : Event}
    (before : NotAfter reverse first second) (after : NotAfter reverse second third) :
    NotAfter reverse first third := by
  cases reverse with
  | false => exact le_trans (show first.rank ≤ second.rank from before) after
  | true => exact le_trans (show third.rank ≤ second.rank from after) before

theorem order_iff : order reverse first second = true ↔ ¬NotAfter reverse second first := by
  cases reverse <;> simp [order, NotAfter, lt_iff]

theorem pairwise_insert {bucket : List Event} (ev : Event) (sorted : bucket.Pairwise (NotAfter reverse)) :
    (bucket.orderedInsert (fun ev it => order reverse ev it) ev).Pairwise (NotAfter reverse) := by
  refine pairwise_orderedInsert (fun before => ?_) (fun notBefore => ?_) NotAfter.trans sorted
  · rw [order_iff] at before
    cases reverse with
    | false => exact le_of_lt (not_le.mp before)
    | true => exact le_of_lt (not_le.mp before)
  · rwa [order_iff, not_not] at notBefore

theorem nextEvent_eq_none {bucket : List Event} : nextEvent reverse bucket = none ↔ bucket = [] := by
  cases reverse <;> simp [nextEvent]

theorem nextEvent_spec {bucket : List Event} {next : Event}
    (sorted : bucket.Pairwise (NotAfter reverse)) (found : nextEvent reverse bucket = some next) :
    bucket.Perm (next :: pop reverse bucket) ∧ (∀ ev ∈ bucket, next.rank ≤ ev.rank) ∧
      (pop reverse bucket).Pairwise (NotAfter reverse) := by
  cases reverse with
  | false =>
    obtain ⟨rest, rfl⟩ := head?_eq_some_iff.mp found
    obtain ⟨least, sortedRest⟩ := pairwise_cons.mp sorted
    refine ⟨.refl _, fun ev mem => ?_, sortedRest⟩
    rcases mem_cons.mp mem with rfl | later
    · exact le_refl _
    · exact least ev later
  | true =>
    obtain ⟨earlier, rfl⟩ := getLast?_eq_some_iff.mp found
    obtain ⟨sortedRest, -, least⟩ := pairwise_append.mp sorted
    have popped : pop true (earlier ++ [next]) = earlier := dropLast_concat
    rw [popped]
    refine ⟨perm_append_comm, fun ev mem => ?_, sortedRest⟩
    rcases mem_append.mp mem with before | last
    · exact least ev before next (mem_singleton_self next)
    · rw [mem_singleton.mp last]

/-! ## What the buckets hold -/

/-- Times the simulator has: signed 64-bit numbers that are not negative. -/
def Representable (ev : Event) : Prop :=
  ev.key.ts.toNat < 2 ^ 63

/-- Every stored event is in the bucket of its time, and every bucket is sorted. -/
structure Placed (calendar : Calendar) (stored : Multiset Event) : Prop where
  width : calendar.width ≠ 0
  positive : 0 < calendar.nBuckets
  small : calendar.nBuckets ≤ 2 ^ 16
  length : calendar.buckets.length = calendar.nBuckets
  contents : (calendar.buckets.flatten : Multiset Event) = stored
  hashed : ∀ i, ∀ ev ∈ calendar.bucket i, calendar.hash ev.key.ts = i
  sorted : ∀ i, (calendar.bucket i).Pairwise (NotAfter calendar.reverse)
  representable : ∀ ev ∈ stored, Representable ev

variable {calendar : Calendar}

theorem hash_lt (pos : 0 < calendar.nBuckets) (ts : UInt64) : calendar.hash ts < calendar.nBuckets :=
  Nat.mod_lt _ pos

theorem bucket_modify (calendar : Calendar) (i : Nat) (change : List Event -> List Event)
    (inside : i < calendar.buckets.length) (j : Nat) :
    (calendar.buckets.modify i change).getD j [] =
      if j = i then change (calendar.bucket i) else calendar.bucket j := by
  by_cases same : j = i
  · subst same
    simp [Calendar.bucket, inside]
  · simp [Calendar.bucket, getD_eq_getElem?_getD, same, Ne.symm same]

variable {i steps : Nat}

theorem flatten_modify (buckets : List (List Event)) (change : List Event -> List Event)
    (inside : i < buckets.length) :
    ∃ others : Multiset Event, (buckets.flatten : Multiset Event) = (buckets.getD i [] : Multiset Event) + others ∧
        ((buckets.modify i change).flatten : Multiset Event) =
          (change (buckets.getD i []) : Multiset Event) + others := by
  induction buckets generalizing i with
  | nil => exact absurd inside (Nat.not_lt_zero i)
  | cons bucket rest ih =>
    cases i with
    | zero => exact ⟨(rest.flatten : Multiset Event), by simp, by simp⟩
    | succ i =>
      obtain ⟨others, before, after⟩ := ih (Nat.lt_of_succ_lt_succ inside)
      refine ⟨(bucket : Multiset Event) + others, ?_, ?_⟩
      · rw [flatten_cons, ← Multiset.coe_add, before, getD_cons_succ, add_left_comm]
      · rw [modify_succ_cons, flatten_cons, ← Multiset.coe_add, after, getD_cons_succ, add_left_comm]

variable {stored : Multiset Event}

theorem mem_stored_iff (placed : Placed calendar stored) :
    ev ∈ stored ↔ ev ∈ calendar.bucket (calendar.hash ev.key.ts) := by
  rw [← placed.contents, Multiset.mem_coe, mem_flatten]
  constructor
  · rintro ⟨bucket, mem, inside⟩
    obtain ⟨i, known, rfl⟩ := getElem_of_mem mem
    have here : calendar.bucket i = calendar.buckets[i] := by
      simp [Calendar.bucket, known]
    rw [← here] at inside
    rwa [placed.hashed i ev inside]
  · intro inside
    have known : calendar.hash ev.key.ts < calendar.buckets.length := by
      rw [placed.length]
      exact hash_lt placed.positive _
    refine ⟨calendar.buckets[calendar.hash ev.key.ts], getElem_mem known, ?_⟩
    simpa [Calendar.bucket, getD_eq_getElem?_getD, known] using inside

theorem mem_stored_of_bucket (placed : Placed calendar stored) (mem : ev ∈ calendar.bucket i) : ev ∈ stored := by
  rw [mem_stored_iff placed, placed.hashed i ev mem]
  exact mem

theorem doInsert_placed (placed : Placed calendar stored) (representable : Representable ev) :
    Placed (doInsert calendar ev) (ev ::ₘ stored) := by
  have inside : calendar.hash ev.key.ts < calendar.buckets.length := by
    rw [placed.length]
    exact hash_lt placed.positive _
  obtain ⟨others, before, after⟩ := flatten_modify calendar.buckets
    (orderedInsert (fun ev it => order calendar.reverse ev it) ev) inside
  refine ⟨placed.width, placed.positive, placed.small, ?_, ?_, ?_, ?_, ?_⟩
  · simpa [doInsert] using placed.length
  · rw [doInsert]
    rw [after, ← placed.contents, before, Multiset.coe_eq_coe.mpr (perm_orderedInsert _ ev _),
      ← Multiset.cons_coe, Multiset.cons_add]
  · intro i other mem
    change other ∈ (calendar.buckets.modify _ _).getD i [] at mem
    rw [bucket_modify calendar _ _ inside] at mem
    split at mem
    · rename_i here
      rcases mem_cons.mp ((perm_orderedInsert _ ev _).mem_iff.mp mem) with rfl | old
      · exact here.symm
      · rw [here]
        exact placed.hashed _ other old
    · exact placed.hashed i other mem
  · intro i
    change ((calendar.buckets.modify _ _).getD i []).Pairwise _
    rw [bucket_modify calendar _ _ inside]
    split
    · exact pairwise_insert ev (placed.sorted _)
    · exact placed.sorted i
  · intro other mem
    rcases Multiset.mem_cons.mp mem with rfl | old
    · exact representable
    · exact placed.representable other old

/-! ## The search through the year -/

/-- The position of the search is that of the last event, and no stored event is
earlier. -/
structure Positioned (calendar : Calendar) (stored : Multiset Event) : Prop where
  lastBucket : calendar.lastBucket = calendar.hash calendar.lastPrio
  bucketTop : calendar.bucketTop = (calendar.lastPrio / calendar.width + 1) * calendar.width
  lastPrio : calendar.lastPrio.toNat < 2 ^ 63
  late : ∀ ev ∈ stored, calendar.lastPrio.toNat ≤ ev.key.ts.toNat

/-- The number of whole widths before a time. -/
def Calendar.span (calendar : Calendar) (ts : UInt64) : Nat :=
  ts.toNat / calendar.width.toNat

theorem hash_eq (calendar : Calendar) (ts : UInt64) : calendar.hash ts = calendar.span ts % calendar.nBuckets := by
  simp [Calendar.hash, Calendar.span]

theorem width_pos (placed : Placed calendar stored) : 0 < calendar.width.toNat :=
  Nat.pos_of_ne_zero fun zero => placed.width (UInt64.toNat_inj.mp zero)

/-- The top of the bucket of a time, modulo 2^64. -/
theorem toNat_top (calendar : Calendar) (ts : UInt64) : ((ts / calendar.width + 1) * calendar.width).toNat =
    (calendar.span ts + 1) * calendar.width.toNat % 2 ^ 64 := by
  rw [Calendar.span]
  simp

/-- A span that is not before `from` and falls into the bucket `steps` after it is at
least that far. -/
theorem add_le_of_mod_eq {n start span : Nat} (few : steps < n) (after : start ≤ span)
    (same : span % n = (start + steps) % n) : start + steps ≤ span := by
  obtain ⟨dist, rfl⟩ := Nat.exists_eq_add_of_le after
  have cancelled : dist % n = steps % n := Nat.ModEq.add_left_cancel' start same
  rw [Nat.mod_eq_of_lt few] at cancelled
  have atMost := Nat.mod_le dist n
  omega

/-- What is known of the events of the bucket some steps after the last one: none is
earlier than the bucket's turn, and its top does not overflow. -/
theorem turn_of_mem (placed : Placed calendar stored) (positioned : Positioned calendar stored)
    (few : steps < calendar.nBuckets)
    (mem : ev ∈ calendar.bucket ((calendar.span calendar.lastPrio + steps) % calendar.nBuckets)) :
    calendar.span calendar.lastPrio + steps ≤ calendar.span ev.key.ts ∧
      (calendar.span calendar.lastPrio + steps + 1) * calendar.width.toNat < 2 ^ 64 := by
  have known := mem_stored_of_bucket placed mem
  have here := placed.hashed _ ev mem
  have turn := add_le_of_mod_eq few
    (Nat.div_le_div_right (positioned.late ev known) : calendar.span _ ≤ calendar.span _) here
  refine ⟨turn, ?_⟩
  have whole : calendar.span ev.key.ts * calendar.width.toNat ≤ ev.key.ts.toNat :=
    Nat.div_mul_le_self _ _
  have early := placed.representable ev known
  have below : (calendar.span calendar.lastPrio + steps) * calendar.width.toNat < 2 ^ 63 :=
    Nat.lt_of_le_of_lt (Nat.le_trans (Nat.mul_le_mul_right _ turn) whole) early
  rw [Nat.succ_mul]
  rcases Nat.eq_zero_or_pos (calendar.span calendar.lastPrio + steps) with zero | pos
  · rw [zero, Nat.zero_mul, Nat.zero_add]
    exact calendar.width.toNat_lt
  · have narrow : calendar.width.toNat ≤ (calendar.span calendar.lastPrio + steps) * calendar.width.toNat :=
      Nat.le_mul_of_pos_left _ pos
    omega

/-- The buckets of the first steps after the last one. -/
def Visited (calendar : Calendar) (steps : Nat) (ev : Event) : Prop :=
  ∃ step < steps, ev ∈ calendar.bucket ((calendar.span calendar.lastPrio + step) % calendar.nBuckets)

/-- What the search knows after some steps: no stored event is due in the visited
buckets, and the minimum is that of the visited ones. -/
structure Searching (calendar : Calendar) (stored : Multiset Event) (initial : Event)
    (steps : Nat) (min : Event) (minBucket : Option Nat) : Prop where
  due : ∀ ev ∈ stored, calendar.span calendar.lastPrio + steps ≤ calendar.span ev.key.ts
  unset : minBucket = none -> min = initial ∧ ∀ ev, ¬Visited calendar steps ev
  set : ∀ bucket, minBucket = some bucket -> nextEvent calendar.reverse (calendar.bucket bucket) = some min ∧
      ∀ ev, Visited calendar steps ev -> min.rank ≤ ev.rank

/-- What the search finds: the least event, in the bucket of its time. -/
def Finds (calendar : Calendar) (stored : Multiset Event) : Found -> Prop
  | .inYear bucket bucketTop next =>
    nextEvent calendar.reverse (calendar.bucket bucket) = some next ∧ Least Event.rank next stored ∧
        bucketTop = (next.key.ts / calendar.width + 1) * calendar.width
  | .later min minBucket => ∃ bucket, minBucket = some bucket ∧
      nextEvent calendar.reverse (calendar.bucket bucket) = some min ∧ Least Event.rank min stored

theorem rank_lt_of_ts (earlier : first.key.ts.toNat < second.key.ts.toNat) : first.rank < second.rank :=
  Prod.Lex.toLex_lt_toLex.mpr (.inl earlier)

theorem nextEvent_mem {bucket : List Event} {next : Event}
    (found : nextEvent reverse bucket = some next) : next ∈ bucket := by
  cases reverse with
  | false => exact mem_of_mem_head? found
  | true => exact mem_of_getLast? found

variable {minBucket : Option Nat}

/-- An event that is due in its bucket's turn is the least of all. -/
theorem least_of_due {next : Event} (placed : Placed calendar stored)
    (searching : Searching calendar stored initial steps min minBucket)
    (found : nextEvent calendar.reverse (calendar.bucket
      ((calendar.span calendar.lastPrio + steps) % calendar.nBuckets)) = some next)
    (due : calendar.span next.key.ts = calendar.span calendar.lastPrio + steps) :
    Least rank next stored := by
  refine ⟨mem_stored_of_bucket placed (nextEvent_mem found), fun ev mem => ?_⟩
  rcases Nat.eq_or_lt_of_le (searching.due ev mem) with same | later
  · have inBucket := (mem_stored_iff placed).mp mem
    rw [hash_eq, ← same] at inBucket
    exact (nextEvent_spec (placed.sorted _) found).2.1 ev inBucket
  · refine le_of_lt (rank_lt_of_ts ?_)
    by_contra notEarlier
    have before : calendar.span ev.key.ts ≤ calendar.span next.key.ts :=
      Nat.div_le_div_right (Nat.le_of_not_lt notEarlier)
    omega

theorem Searching.next {after : Event} {afterBucket : Option Nat}
    (searching : Searching calendar stored initial steps min minBucket)
    (notDue : ∀ ev ∈ stored, calendar.span ev.key.ts ≠ calendar.span calendar.lastPrio + steps)
    (unset : afterBucket = none -> after = initial ∧ minBucket = none ∧ calendar.bucket
      ((calendar.span calendar.lastPrio + steps) % calendar.nBuckets) = [])
    (set : ∀ bucket, afterBucket = some bucket -> nextEvent calendar.reverse (calendar.bucket bucket) = some after ∧
        (∀ ev ∈ calendar.bucket ((calendar.span calendar.lastPrio + steps) % calendar.nBuckets),
          after.rank ≤ ev.rank) ∧ ∀ ev, Visited calendar steps ev -> after.rank ≤ ev.rank) :
    Searching calendar stored initial (steps + 1) after afterBucket := by
  have split : ∀ ev, Visited calendar (steps + 1) ev -> Visited calendar steps ev ∨
      ev ∈ calendar.bucket ((calendar.span calendar.lastPrio + steps) % calendar.nBuckets) := by
    rintro ev ⟨step, below, mem⟩
    rcases Nat.lt_succ_iff_lt_or_eq.mp below with before | rfl
    · exact .inl ⟨step, before, mem⟩
    · exact .inr mem
  refine ⟨fun ev mem => ?_, fun nothing => ?_, fun bucket found => ?_⟩
  · have notYet := notDue ev mem
    have before := searching.due ev mem
    omega
  · obtain ⟨same, before, empty⟩ := unset nothing
    refine ⟨same, fun ev visited => ?_⟩
    rcases split ev visited with earlier | here
    · exact (searching.unset before).2 ev earlier
    · rw [empty] at here
      cases here
  · obtain ⟨here, least, leastBefore⟩ := set bucket found
    refine ⟨here, fun ev visited => ?_⟩
    rcases split ev visited with earlier | inside
    · exact leastBefore ev earlier
    · exact least ev inside

/-- After a whole year every event is in a visited bucket. -/
theorem visited_year (placed : Placed calendar stored) (mem : ev ∈ stored) :
    Visited calendar calendar.nBuckets ev := by
  have pos := placed.positive
  have inside := (mem_stored_iff placed).mp mem
  have bounded := hash_lt pos ev.key.ts
  generalize calendar.hash ev.key.ts = bucket at inside bounded
  generalize firstBucket : calendar.span calendar.lastPrio % calendar.nBuckets = first
  have small : first < calendar.nBuckets := firstBucket ▸ Nat.mod_lt _ pos
  refine ⟨(bucket + calendar.nBuckets - first) % calendar.nBuckets, Nat.mod_lt _ pos, ?_⟩
  have here : (calendar.span calendar.lastPrio +
      (bucket + calendar.nBuckets - first) % calendar.nBuckets) % calendar.nBuckets = bucket := by
    rw [Nat.add_mod, firstBucket, Nat.mod_mod, ← Nat.add_mod_mod,
      Nat.mod_mod, Nat.add_mod_mod, show first + (bucket + calendar.nBuckets - first) =
        bucket + calendar.nBuckets by omega, Nat.add_mod_right, Nat.mod_eq_of_lt bounded]
  rwa [here]

theorem search_finds (fuel : Nat) {bucketTop : UInt64}
    (placed : Placed calendar stored) (positioned : Positioned calendar stored)
    (nonempty : stored ≠ 0) (large : ∀ ev ∈ stored, ev.lt initial)
    (few : steps < calendar.nBuckets) (enough : calendar.nBuckets ≤ fuel + steps) (top : bucketTop.toNat =
      (calendar.span calendar.lastPrio + steps + 1) * calendar.width.toNat % 2 ^ 64)
    (searching : Searching calendar stored initial steps min minBucket) :
    ∃ found, search calendar fuel
      ((calendar.span calendar.lastPrio + steps) % calendar.nBuckets) bucketTop min minBucket =
        some found ∧ Finds calendar stored found := by
  induction fuel generalizing steps min minBucket bucketTop with
  | zero => omega
  | succ fuel ih =>
    -- What happens when the search goes on with some minimum.
    have further : ∀ {after afterBucket}, Searching calendar stored initial (steps + 1) after afterBucket ->
          ∃ found, (if ((calendar.span calendar.lastPrio + steps) % calendar.nBuckets + 1) %
              calendar.nBuckets = calendar.lastBucket then some (.later after afterBucket)
            else search calendar fuel (((calendar.span calendar.lastPrio + steps) %
              calendar.nBuckets + 1) % calendar.nBuckets) (bucketTop + calendar.width) after
                afterBucket) = some found ∧ Finds calendar stored found := by
      intro after afterBucket going
      have bucket : ((calendar.span calendar.lastPrio + steps) % calendar.nBuckets + 1) %
          calendar.nBuckets = (calendar.span calendar.lastPrio + (steps + 1)) %
            calendar.nBuckets := by
        rw [Nat.mod_add_mod, Nat.add_assoc]
      rw [bucket, positioned.lastBucket, hash_eq]
      by_cases last : steps + 1 = calendar.nBuckets
      · rw [last, Nat.add_mod_right, if_pos rfl]
        refine ⟨_, rfl, ?_⟩
        rw [last] at going
        cases found : afterBucket with
        | none =>
          obtain ⟨ev, mem⟩ := Multiset.exists_mem_of_ne_zero nonempty
          exact absurd (visited_year placed mem) ((going.unset found).2 ev)
        | some bucket =>
          obtain ⟨here, least⟩ := going.set bucket found
          exact ⟨bucket, rfl, here, mem_stored_of_bucket placed (nextEvent_mem here),
            fun ev mem => least ev (visited_year placed mem)⟩
      · rw [if_neg]
        · refine ih (by omega) (by omega) ?_ going
          rw [UInt64.toNat_add, top, Nat.mod_add_mod, ← Nat.succ_mul]
          rfl
        · intro again
          have multiple : steps + 1 ≡ 0 [MOD calendar.nBuckets] :=
            Nat.ModEq.add_left_cancel' (calendar.span calendar.lastPrio) again
          rw [Nat.ModEq, Nat.mod_eq_of_lt (by omega), Nat.zero_mod] at multiple
          omega
    rw [search]
    cases found : nextEvent calendar.reverse (calendar.bucket
        ((calendar.span calendar.lastPrio + steps) % calendar.nBuckets)) with
    | none =>
      have empty := nextEvent_eq_none.mp found
      refine further (searching.next (fun ev mem due => ?_)
        (fun nothing => ⟨(searching.unset nothing).1, nothing, empty⟩) fun bucket some => ?_)
      · have inside := (mem_stored_iff placed).mp mem
        rw [hash_eq, due, empty] at inside
        cases inside
      · obtain ⟨here, least⟩ := searching.set bucket some
        exact ⟨here, by simp [empty], least⟩
    | some next =>
      obtain ⟨turn, exact⟩ := turn_of_mem placed positioned few (nextEvent_mem found)
      rw [Nat.mod_eq_of_lt exact] at top
      have dueIff : next.key.ts < bucketTop ↔
          calendar.span next.key.ts = calendar.span calendar.lastPrio + steps := by
        rw [UInt64.lt_iff_toNat_lt, top, ← Nat.div_lt_iff_lt_mul (width_pos placed)]
        change calendar.span next.key.ts < _ ↔ _
        omega
      dsimp only
      by_cases due : next.key.ts < bucketTop
      · rw [if_pos due]
        have inTurn := dueIff.mp due
        refine ⟨_, rfl, found, least_of_due placed searching found inTurn, ?_⟩
        rw [← UInt64.toNat_inj, toNat_top, top, inTurn, Nat.mod_eq_of_lt exact]
      · rw [if_neg due]
        obtain ⟨-, leastHere, -⟩ := nextEvent_spec (placed.sorted _) found
        have notDue : ∀ ev ∈ stored, calendar.span ev.key.ts ≠ calendar.span calendar.lastPrio + steps := by
          intro ev mem same
          have inside := (mem_stored_iff placed).mp mem
          rw [hash_eq, same] at inside
          have before : calendar.span next.key.ts ≤ calendar.span ev.key.ts :=
            Nat.div_le_div_right (ts_le_of_rank (leastHere ev inside))
          exact due (dueIff.mpr (by omega))
        by_cases less : next.lt min
        · rw [if_pos less]
          refine further (searching.next notDue (fun nothing => nomatch nothing) fun bucket same => ?_)
          cases same
          refine ⟨found, leastHere, fun ev visited => ?_⟩
          cases best : minBucket with
          | none => exact absurd visited ((searching.unset best).2 ev)
          | some bucket => exact le_of_lt ((lt_iff.mp less).trans_le ((searching.set bucket best).2 ev visited))
        · rw [if_neg less]
          refine further (searching.next notDue (fun nothing => ?_) fun bucket same => ?_)
          · rw [(searching.unset nothing).1] at less
            exact absurd (large next (mem_stored_of_bucket placed (nextEvent_mem found))) less
          · obtain ⟨here, least⟩ := searching.set bucket same
            have notLater := not_lt.mp fun before => less (lt_iff.mpr before)
            exact ⟨here, fun ev inside => notLater.trans (leastHere ev inside), least⟩

theorem searchYear_finds (placed : Placed calendar stored) (positioned : Positioned calendar stored)
    (nonempty : stored ≠ 0) (large : ∀ ev ∈ stored, ev.lt initial) :
    ∃ found, searchYear calendar initial = some found ∧ Finds calendar stored found := by
  have searching : Searching calendar stored initial 0 initial none :=
    { due := fun ev mem => Nat.div_le_div_right (positioned.late ev mem)
      unset := fun _ => ⟨rfl, fun ev ⟨step, below, _⟩ => Nat.not_lt_zero step below⟩
      set := fun _ same => nomatch same }
  have found := search_finds calendar.nBuckets placed positioned nonempty large
    placed.positive (Nat.le_refl _) (toNat_top calendar calendar.lastPrio) searching
  rwa [Nat.add_zero, ← hash_eq, ← positioned.lastBucket, ← positioned.bucketTop] at found

theorem lt_of_representable (other : Event) (large : other.key.ts = 18446744073709551615)
    (representable : Representable ev) : ev.lt other := by
  rw [lt_iff]
  apply rank_lt_of_ts
  rw [large]
  exact Nat.lt_trans representable (by decide)

theorem peekNext_spec (placed : Placed calendar stored) (positioned : Positioned calendar stored)
    (nonempty : stored ≠ 0) (counted : calendar.isEmpty = false) :
    ∃ next, peekNext calendar = some next ∧ Least rank next stored := by
  obtain ⟨found, searched, finds⟩ := searchYear_finds placed positioned nonempty
    (fun ev mem => lt_of_representable minEvent rfl (placed.representable ev mem))
  rw [peekNext, counted, searched]
  cases found with
  | inYear bucket bucketTop next => exact ⟨next, rfl, finds.2.1⟩
  | later min minBucket =>
    obtain ⟨bucket, -, -, least⟩ := finds
    exact ⟨min, rfl, least⟩

theorem popAt_placed {next : Event} (placed : Placed calendar stored)
    (found : nextEvent calendar.reverse (calendar.bucket i) = some next) :
    Placed (calendar.popAt i) (stored.erase next) := by
  have inside : i < calendar.buckets.length := by
    by_contra outside
    have empty : calendar.bucket i = [] := by
      simp [Calendar.bucket, Nat.le_of_not_lt outside]
    rw [nextEvent_eq_none.mpr empty] at found
    cases found
  obtain ⟨perm, -, sortedRest⟩ := nextEvent_spec (placed.sorted i) found
  obtain ⟨others, before, after⟩ := flatten_modify calendar.buckets (pop calendar.reverse) inside
  have smaller : ∀ j, ∀ ev ∈ (calendar.popAt i).bucket j, ev ∈ calendar.bucket j := by
    intro j ev mem
    change ev ∈ (calendar.buckets.modify _ _).getD j [] at mem
    rw [bucket_modify calendar _ _ inside] at mem
    split at mem
    · rename_i same
      rw [same]
      exact perm.symm.subset (mem_cons_of_mem next mem)
    · exact mem
  refine ⟨placed.width, placed.positive, placed.small, ?_, ?_,
    fun j ev mem => placed.hashed j ev (smaller j ev mem), fun j => ?_,
    fun ev mem => placed.representable ev (Multiset.mem_of_mem_erase mem)⟩
  · simpa [Calendar.popAt] using placed.length
  · rw [Calendar.popAt]
    rw [after, ← placed.contents, before]
    change _ = ((calendar.bucket i : Multiset Event) + others).erase next
    rw [Multiset.coe_eq_coe.mpr perm, ← Multiset.cons_coe, Multiset.cons_add, Multiset.erase_cons_head]
    rfl
  · change ((calendar.buckets.modify _ _).getD j []).Pairwise _
    rw [bucket_modify calendar _ _ inside]
    split
    · exact sortedRest
    · exact placed.sorted j

/-- Everything but the position and the contents is the same. -/
structure SameYear (calendar next : Calendar) : Prop where
  reverse : next.reverse = calendar.reverse
  nBuckets : next.nBuckets = calendar.nBuckets
  width : next.width = calendar.width
  qSize : next.qSize = calendar.qSize

theorem SameYear.refl (calendar : Calendar) : SameYear calendar calendar :=
  ⟨rfl, rfl, rfl, rfl⟩

theorem SameYear.trans {first second third : Calendar} (before : SameYear first second)
    (after : SameYear second third) : SameYear first third :=
  ⟨after.reverse.trans before.reverse, after.nBuckets.trans before.nBuckets,
    after.width.trans before.width, after.qSize.trans before.qSize⟩

theorem Placed.reposition (placed : Placed calendar stored) (lastBucket : Nat) (bucketTop lastPrio : UInt64) :
    Placed { calendar with
      lastBucket := lastBucket
      bucketTop := bucketTop
      lastPrio := lastPrio } stored :=
  ⟨placed.width, placed.positive, placed.small, placed.length, placed.contents, placed.hashed,
    placed.sorted, placed.representable⟩

theorem positioned_of_least {next : Event} (representable : Representable next) (least : Least rank next stored)
    (lastBucket : calendar.lastBucket = calendar.hash next.key.ts)
    (bucketTop : calendar.bucketTop = (next.key.ts / calendar.width + 1) * calendar.width)
    (lastPrio : calendar.lastPrio = next.key.ts) : Positioned calendar (stored.erase next) := by
  refine ⟨lastPrio ▸ lastBucket, lastPrio ▸ bucketTop, lastPrio ▸ representable, fun ev mem => ?_⟩
  rw [lastPrio]
  exact ts_le_of_rank (least.2 ev (Multiset.mem_of_mem_erase mem))

theorem doRemoveNext_spec (placed : Placed calendar stored) (positioned : Positioned calendar stored)
    (nonempty : stored ≠ 0) (counted : calendar.isEmpty = false) :
    ∃ ev next, doRemoveNext calendar = some (ev, next) ∧ Least rank ev stored ∧
      Placed next (stored.erase ev) ∧ Positioned next (stored.erase ev) ∧
        next.lastPrio = ev.key.ts ∧ SameYear calendar next := by
  obtain ⟨found, searched, finds⟩ := searchYear_finds placed positioned nonempty
    (fun ev mem => lt_of_representable minKeyEvent rfl (placed.representable ev mem))
  rw [doRemoveNext, counted, searched]
  cases found with
  | inYear bucket bucketTop next =>
    obtain ⟨found, least, top⟩ := finds
    have hashed := placed.hashed bucket next (nextEvent_mem found)
    exact ⟨next, _, rfl, least, (popAt_placed placed found).reposition _ _ _,
      positioned_of_least (placed.representable next least.1) least hashed.symm top rfl, rfl,
      ⟨rfl, rfl, rfl, rfl⟩⟩
  | later min minBucket =>
    obtain ⟨bucket, rfl, found, least⟩ := finds
    dsimp only
    rw [found]
    exact ⟨min, _, rfl, least, (popAt_placed placed found).reposition _ _ _,
      positioned_of_least (placed.representable min least.1) least rfl rfl rfl, rfl,
      ⟨rfl, rfl, rfl, rfl⟩⟩

end Ns3.Core.CalendarScheduler
