import Mathlib.Data.List.Dedup
import Mathlib.Data.List.Induction
import Mathlib.Data.List.Pairwise
import Mathlib.Data.List.Sort

/-!
# Tables and the queries over them

A table is the list of its rows by row id. Writes are `INSERT`, which appends, and `INSERT OR
REPLACE`, which first deletes the rows that conflict on a primary key or a unique column. Queries
ask for the newest row, the rows of the newest time, and one group for each key with a column next
to `MAX`.
-/

namespace Ns3.Sql

open List

universe u v w

variable {Row : Type u}

section Replace

/-- A table whose rows never conflict: `conflicts row old` says that a row and an
older one agree on a primary key or a unique column. -/
structure KeyedTable (conflicts : Row -> Row -> Bool) where
  rows : List Row
  distinct : rows.Pairwise fun old row => conflicts row old = false

namespace KeyedTable

variable {conflicts : Row -> Row -> Bool}

/-- The table `CREATE TABLE` makes. -/
def empty : KeyedTable conflicts := ⟨[], .nil⟩

theorem distinct_replaced {rows : List Row}
    (distinct : rows.Pairwise fun old row => conflicts row old = false) (row : Row) :
    (rows.filter (fun old => !conflicts row old) ++ [row]).Pairwise fun old row => conflicts row old = false := by
  rw [pairwise_append]
  refine ⟨distinct.filter _, pairwise_singleton _ _, ?_⟩
  intro old mem last lastMember
  obtain rfl := mem_singleton.mp lastMember
  simpa using (mem_filter.mp mem).2

/-- `INSERT OR REPLACE`: the rows that conflict with the new one are deleted. -/
def insertOrReplace (table : KeyedTable conflicts) (row : Row) : KeyedTable conflicts :=
  ⟨table.rows.filter (fun old => !conflicts row old) ++ [row], distinct_replaced table.distinct row⟩

variable {row : Row}

theorem mem_insertOrReplace {table : KeyedTable conflicts} {old : Row} : old ∈ (table.insertOrReplace row).rows ↔
    (old ∈ table.rows ∧ conflicts row old = false) ∨ old = row := by
  simp [insertOrReplace]

theorem eq_of_conflicts {table : KeyedTable conflicts} {other : Row}
    (symmetric : ∀ left right, conflicts left right = conflicts right left)
    (first : row ∈ table.rows) (second : other ∈ table.rows) (conflict : conflicts row other) : row = other := by
  by_contra ne
  have : Std.Symm fun old row => conflicts row old = false :=
    ⟨fun old row separate => (symmetric old row).trans separate⟩
  have separate := table.distinct.forall second first (Ne.symm ne)
  exact absurd conflict (by simp [separate])

/-- Replay a list of writes on an empty table. -/
def replay (writes : List Row) : KeyedTable conflicts :=
  writes.foldl insertOrReplace empty

@[simp] theorem replay_append_singleton (writes : List Row) (row : Row) :
    (replay (writes ++ [row]) : KeyedTable conflicts) = (replay writes).insertOrReplace row := by
  simp [replay]

/-- The rows of a table are its writes that no later write replaced. -/
theorem mem_replay {writes : List Row} : row ∈ (replay writes : KeyedTable conflicts).rows ↔
    ∃ earlier later, writes = earlier ++ row :: later ∧ ∀ other ∈ later, conflicts other row = false := by
  induction writes using reverseRecOn with
  | nil => simp [replay, empty]
  | append_singleton writes last ih =>
    rw [replay_append_singleton, mem_insertOrReplace, ih]
    constructor
    · rintro (⟨⟨earlier, later, rfl, kept⟩, keptByLast⟩ | rfl)
      · refine ⟨earlier, later ++ [last], by simp, ?_⟩
        simpa [or_imp, forall_and] using ⟨kept, keptByLast⟩
      · exact ⟨writes, [], by simp, by simp⟩
    · rintro ⟨earlier, later, split, kept⟩
      cases later using reverseRecOn with
      | nil => exact .inr (singleton_inj.mp (append_inj' split rfl).2).symm
      | append_singleton later final =>
        rw [← cons_append, ← append_assoc] at split
        obtain ⟨whole, lastEq⟩ := append_inj' split rfl
        obtain rfl := singleton_inj.mp lastEq
        exact .inl ⟨⟨earlier, later, whole, fun other mem => kept other (by simp [mem])⟩, kept last (by simp)⟩

/-- The rows of a table, traced back to the entries of a log that wrote them. -/
theorem mem_replay_filterMap {Entry : Type v} {written : Entry -> Option Row} {log : List Entry} :
    row ∈ (replay (log.filterMap written) : KeyedTable conflicts).rows ↔
      ∃ earlier entry later, log = earlier ++ entry :: later ∧ written entry = some row ∧
        ∀ other ∈ later, ∀ newer, written other = some newer -> conflicts newer row = false := by
  rw [mem_replay]
  constructor
  · rintro ⟨before, after, split, kept⟩
    obtain ⟨earlier, rest, rfl, rfl, wrote⟩ := filterMap_eq_append_iff.mp split
    obtain ⟨silent, entry, later, rfl, quiet, writes, rfl⟩ := filterMap_eq_cons_iff.mp wrote
    refine ⟨earlier ++ silent, entry, later, by simp, writes, ?_⟩
    intro other mem newer newerWritten
    exact kept newer (mem_filterMap.mpr ⟨other, mem, newerWritten⟩)
  · rintro ⟨earlier, entry, later, rfl, writes, kept⟩
    refine ⟨earlier.filterMap written, later.filterMap written, by simp [writes], ?_⟩
    intro newer mem
    obtain ⟨other, inLater, newerWritten⟩ := mem_filterMap.mp mem
    exact kept other inLater newer newerWritten

end KeyedTable

end Replace

section Newest

variable {Time : Type v} [LinearOrder Time] (time : Row -> Time)

/-- `ORDER BY time DESC, entryid DESC LIMIT 1`. -/
def newest : List Row -> Option Row
  | [] => none
  | row :: rest =>
    match newest rest with
    | none => some row
    | some later => if time row ≤ time later then some later else some row

/-- A row is at the latest time of a table. -/
def AtLatest (table : List Row) (row : Row) : Prop :=
  row ∈ table ∧ ∀ other ∈ table, time other ≤ time row

variable {time} {table : List Row}

theorem newest_eq_none_iff : newest time table = none ↔ table = [] := by
  cases table with
  | nil => simp [newest]
  | cons row rest =>
    simp only [newest]
    split
    · simp
    · split <;> simp

variable {row : Row}

theorem newest_atLatest (found : newest time table = some row) : AtLatest time table row := by
  induction table generalizing row with
  | nil => simp [newest] at found
  | cons first rest ih =>
    simp only [newest] at found
    split at found
    · next empty =>
        obtain rfl := newest_eq_none_iff.mp empty
        cases found
        simp [AtLatest]
    · next later foundLater =>
        obtain ⟨mem, latest⟩ := ih foundLater
        split at found
        · next notAfter =>
            cases found
            exact ⟨mem_cons_of_mem _ mem, forall_mem_cons.mpr ⟨notAfter, latest⟩⟩
        · next after =>
            cases found
            refine ⟨mem_cons_self, forall_mem_cons.mpr ⟨le_rfl, ?_⟩⟩
            exact fun other inRest => (latest other inRest).trans (le_of_not_ge after)

/-- Which rows are at the latest time depends on the rows only, not on how often
or in which order they appear. -/
theorem AtLatest.congr {other : List Row} (same : ∀ row, row ∈ table ↔ row ∈ other) (row : Row) :
    AtLatest time table row ↔ AtLatest time other row := by
  simp only [AtLatest, same]

theorem AtLatest.time_eq {other : Row} (first : AtLatest time table row)
    (second : AtLatest time table other) : time row = time other :=
  le_antisymm (second.2 row first.1) (first.2 other second.1)

variable (time) in
/-- `WHERE time IN (SELECT time … ORDER BY time DESC LIMIT 1)`. -/
def ofNewestTime (table : List Row) : List Row :=
  match newest time table with
  | none => []
  | some last => table.filter fun row => time row = time last

theorem mem_ofNewestTime : row ∈ ofNewestTime time table ↔ AtLatest time table row := by
  unfold ofNewestTime
  split
  · next empty =>
      obtain rfl := newest_eq_none_iff.mp empty
      simp [AtLatest]
  · next last found =>
      have latest := newest_atLatest found
      simp only [mem_filter, decide_eq_true_eq]
      constructor
      · rintro ⟨mem, sameTime⟩
        exact ⟨mem, fun other inTable => sameTime ▸ latest.2 other inTable⟩
      · intro rowLatest
        exact ⟨rowLatest.1, rowLatest.time_eq latest⟩

end Newest

section Ordered

variable {Time : Type v} [LinearOrder Time] {time : Row -> Time}

variable (time) in
/-- `ORDER BY time DESC, entryid DESC`. -/
def byTimeDesc (table : List Row) : List Row :=
  table.reverse.insertionSort fun row other => time other ≤ time row

/-- `LIMIT count`; a negative count is no limit. -/
def limit (count : Int64) (table : List Row) : List Row :=
  if count < 0 then table else table.take count.toInt.toNat

theorem byTimeDesc_eq_reverse {table : List Row} (ordered : table.Pairwise fun row later => time row ≤ time later) :
    byTimeDesc time table = table.reverse := by
  apply List.Pairwise.insertionSort_eq
  exact pairwise_reverse.mpr ordered

end Ordered

section Groups

variable {Time : Type v} [LinearOrder Time] (time : Row -> Time)

/-- How the engine evaluates a bare column next to `MAX(time)`: from some row of
the group that attains the maximum. Which one is up to the engine. -/
structure BareColumn where
  pick : List Row -> Option Row
  attains : ∀ {group row}, pick group = some row -> AtLatest time group row
  total : ∀ {group}, pick group = none -> group = []

variable {time}

/-- The engine that reads bare columns from the newest of these rows. -/
def BareColumn.last : BareColumn time where
  pick := newest time
  attains := newest_atLatest
  total := newest_eq_none_iff.mp

/-- An engine may read a group's bare columns from any row at its latest time. -/
def BareColumn.choosing [DecidableEq Row] (group : List Row) (row : Row)
    (latest : AtLatest time group row) : BareColumn time where
  pick rows := if rows = group then some row else newest time rows
  attains := by
    intro rows picked found
    split at found
    · next same =>
        obtain rfl := Option.some.inj found
        exact same ▸ latest
    · exact newest_atLatest found
  total := by
    intro rows missing
    split at missing
    · simp at missing
    · exact newest_eq_none_iff.mp missing

theorem BareColumn.choosing_pick [DecidableEq Row] {group : List Row} {row : Row}
    (latest : AtLatest time group row) : (choosing group row latest).pick group = some row := by
  simp [choosing]

/-- Every engine finds a property at a group exactly when the group is not empty
and all its rows at the latest time have the property. -/
theorem BareColumn.forall_pick_iff [DecidableEq Row] {group : List Row} {property : Row -> Prop} :
    (∀ bare : BareColumn time, ∃ row, bare.pick group = some row ∧ property row) ↔
      group ≠ [] ∧ ∀ row, AtLatest time group row -> property row := by
  constructor
  · intro every
    refine ⟨?_, ?_⟩
    · rintro rfl
      obtain ⟨row, found, -⟩ := every .last
      simp [BareColumn.last, newest] at found
    · intro row latest
      obtain ⟨picked, found, holds⟩ := every (choosing group row latest)
      rw [choosing_pick] at found
      exact Option.some.inj found ▸ holds
  · rintro ⟨nonempty, every⟩ bare
    cases found : bare.pick group with
    | none => exact absurd (bare.total found) nonempty
    | some row => exact ⟨row, rfl, every row (bare.attains found)⟩

variable {Key : Type w} [DecidableEq Key] [LE Key] [DecidableLE Key]

/-- `SELECT key, MAX(time) … GROUP BY key HAVING having ORDER BY key`, where
`having` is a condition on bare columns. -/
def groupMax (bare : BareColumn time) (key : Row -> Key) (having : Row -> Bool) (table : List Row) :
    List (Key × Time) :=
  ((table.map key).dedup.insertionSort (· ≤ ·)).filterMap fun value =>
    match bare.pick (table.filter fun row => key row = value) with
    | none => none
    | some row => if having row then some (value, time row) else none

theorem mem_groupMax {bare : BareColumn time} {key : Row -> Key} {having : Row -> Bool}
    {table : List Row} {value : Key} :
    value ∈ (groupMax bare key having table).map Prod.fst ↔
      ∃ row, bare.pick (table.filter fun row => key row = value) = some row ∧ having row := by
  simp only [groupMax, List.mem_map, mem_filterMap, mem_insertionSort, mem_dedup]
  constructor
  · rintro ⟨⟨_, _⟩, ⟨current, -, selected⟩, rfl⟩
    split at selected
    · simp at selected
    · next row found =>
        split at selected
        · next holds =>
            obtain ⟨rfl, -⟩ := Prod.mk.inj (Option.some.inj selected)
            exact ⟨row, found, holds⟩
        · simp at selected
  · rintro ⟨row, found, holds⟩
    have mem := mem_filter.mp (bare.attains found).1
    refine ⟨(value, time row), ⟨value, ⟨row, mem.1, by simpa using mem.2⟩, ?_⟩, rfl⟩
    rw [found]
    exact if_pos holds

end Groups

section Join

variable {Other : Type v} {Key : Type w} [DecidableEq Key]

/-- The left rows of an `INNER JOIN` on equal keys, each as often as it is joined. -/
def joinLeft (left : List Row) (right : List Other) (leftKey : Row -> Key) (rightKey : Other -> Key) : List Row :=
  left.flatMap fun row => (right.filter fun other => rightKey other = leftKey row).map fun _ => row

theorem mem_joinLeft {left : List Row} {right : List Other} {leftKey : Row -> Key}
    {rightKey : Other -> Key} {row : Row} :
    row ∈ joinLeft left right leftKey rightKey ↔ row ∈ left ∧ ∃ other ∈ right, rightKey other = leftKey row := by
  simp only [joinLeft, mem_flatMap, List.mem_map, mem_filter, decide_eq_true_eq]
  constructor
  · rintro ⟨_, mem, other, joined, rfl⟩
    exact ⟨mem, other, joined⟩
  · rintro ⟨mem, other, joined⟩
    exact ⟨row, mem, other, joined, rfl⟩

end Join

end Ns3.Sql
