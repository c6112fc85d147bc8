import Mathlib.Data.List.Nodup

/-!
# Tables searched from the front

Rows are appended, and looked up, changed and removed by a key: always the first row of the key.
Where no key occurs twice, the first row is the only one.
-/

namespace Ns3.Semantics.KeyedList

open List

universe u v

variable {Row : Type u} {Key : Type v} [DecidableEq Key] {keyOf : Row -> Key} {key other : Key}
    {row : Row} {rows : List Row} {change : Row -> Row}

def lookup (keyOf : Row -> Key) (key : Key) (rows : List Row) : Option Row :=
  rows.find? fun row => keyOf row = key

def modify (keyOf : Row -> Key) (key : Key) (change : Row -> Row) : List Row -> List Row
  | [] => []
  | row :: rows => if keyOf row = key then change row :: rows else row :: modify keyOf key change rows

def remove (keyOf : Row -> Key) (key : Key) (rows : List Row) : List Row :=
  rows.eraseP fun row => keyOf row = key

theorem keyOf_of_lookup (found : lookup keyOf key rows = some row) : keyOf row = key := by
  simpa using find?_some found

theorem mem_of_lookup (found : lookup keyOf key rows = some row) : row ∈ rows :=
  mem_of_find?_eq_some found

theorem lookup_eq_none : lookup keyOf key rows = none ↔ ∀ row ∈ rows, keyOf row ≠ key := by
  simp [lookup]

theorem lookup_eq_none_iff_keys : lookup keyOf key rows = none ↔ key ∉ rows.map keyOf := by
  simp [lookup_eq_none]

theorem lookup_cons : lookup keyOf key (row :: rows) = if keyOf row = key then some row else lookup keyOf key rows := by
  by_cases same : keyOf row = key <;> simp [lookup, same]

theorem modify_cons : modify keyOf key change (row :: rows) =
    if keyOf row = key then change row :: rows else row :: modify keyOf key change rows :=
  rfl

theorem lookup_append_of_none (absent : lookup keyOf key rows = none) (added : List Row) :
    lookup keyOf key (rows ++ added) = lookup keyOf key added := by
  rw [lookup] at absent
  rw [lookup, find?_append, absent, Option.none_or, lookup]

theorem lookup_append_of_some (found : lookup keyOf key rows = some row) (added : List Row) :
    lookup keyOf key (rows ++ added) = some row := by
  rw [lookup] at found
  rw [lookup, find?_append, found, Option.some_or]

theorem lookup_append_singleton_of_ne (ne : keyOf row ≠ key) :
    lookup keyOf key (rows ++ [row]) = lookup keyOf key rows := by
  simp [lookup, ne]

theorem lookup_of_mem (unique : (rows.map keyOf).Nodup) (mem : row ∈ rows) :
    lookup keyOf (keyOf row) rows = some row := by
  induction rows with
  | nil => cases mem
  | cons first rows ih =>
    rw [map_cons, nodup_cons] at unique
    rw [lookup_cons]
    cases mem with
    | head => rw [if_pos rfl]
    | tail _ mem =>
      have ne : keyOf first ≠ keyOf row := by
        intro same
        apply unique.1
        rw [same]
        exact mem_map_of_mem mem
      rw [if_neg ne, ih unique.2 mem]

theorem of_mem_modify (mem : row ∈ modify keyOf key change rows) :
    row ∈ rows ∨ ∃ old ∈ rows, keyOf old = key ∧ row = change old := by
  induction rows with
  | nil => cases mem
  | cons first rows ih =>
    rw [modify_cons] at mem
    split at mem
    case isTrue same =>
      cases mem with
      | head => exact .inr ⟨first, mem_cons_self, same, rfl⟩
      | tail _ mem => exact .inl (mem_cons_of_mem first mem)
    case isFalse =>
      cases mem with
      | head => exact .inl mem_cons_self
      | tail _ mem =>
        obtain mem | ⟨old, isOld, same, changed⟩ := ih mem
        · exact .inl (mem_cons_of_mem first mem)
        · exact .inr ⟨old, mem_cons_of_mem first isOld, same, changed⟩

theorem mem_modify_of_ne (ne : keyOf row ≠ key) (mem : row ∈ rows) : row ∈ modify keyOf key change rows := by
  induction rows with
  | nil => cases mem
  | cons first rows ih =>
    rw [modify_cons]
    split
    case isTrue same =>
      cases mem with
      | head => exact absurd same ne
      | tail _ mem => exact mem_cons_of_mem _ mem
    case isFalse =>
      cases mem with
      | head => exact mem_cons_self
      | tail _ mem => exact mem_cons_of_mem first (ih mem)

/-- A change is to the first row of the key. -/
theorem modify_split (found : lookup keyOf key rows = some row) : ∃ before after, rows = before ++ row :: after ∧
    ∀ change : Row -> Row, modify keyOf key change rows = before ++ change row :: after := by
  induction rows with
  | nil => cases found
  | cons first rows ih =>
    rw [lookup_cons] at found
    split at found
    case isTrue same =>
      cases found
      exact ⟨[], rows, rfl, fun change => by rw [modify_cons, if_pos same, nil_append]⟩
    case isFalse ne =>
      obtain ⟨before, after, rfl, changed⟩ := ih found
      refine ⟨first :: before, after, rfl, fun change => ?_⟩
      rw [modify_cons, if_neg ne, changed, cons_append]

section

variable (keeps : ∀ row, keyOf row = key -> keyOf (change row) = key)
include keeps

theorem map_keyOf_modify (rows : List Row) :
    (modify keyOf key change rows).map keyOf = rows.map keyOf := by
  induction rows with
  | nil => rfl
  | cons row rows ih =>
    rw [modify_cons]
    split
    case isTrue same => rw [map_cons, map_cons, keeps row same, same]
    case isFalse => rw [map_cons, map_cons, ih]

theorem lookup_modify_self (rows : List Row) :
    lookup keyOf key (modify keyOf key change rows) = (lookup keyOf key rows).map change := by
  induction rows with
  | nil => rfl
  | cons row rows ih =>
    rw [modify_cons]
    by_cases same : keyOf row = key
    · rw [if_pos same, lookup_cons, lookup_cons, if_pos same, if_pos (keeps row same), Option.map_some]
    · rw [if_neg same, lookup_cons, lookup_cons, if_neg same, if_neg same, ih]

theorem lookup_modify_of_ne (ne : other ≠ key) (rows : List Row) :
    lookup keyOf other (modify keyOf key change rows) = lookup keyOf other rows := by
  induction rows with
  | nil => rfl
  | cons row rows ih =>
    rw [modify_cons]
    by_cases same : keyOf row = key
    · have absent : keyOf row ≠ other := fun equal => ne (equal.symm.trans same)
      have stillAbsent : keyOf (change row) ≠ other := fun equal => ne (equal.symm.trans (keeps row same))
      rw [if_pos same, lookup_cons, lookup_cons, if_neg absent, if_neg stillAbsent]
    · rw [if_neg same, lookup_cons, lookup_cons, ih]

end

section Remove

variable {removed : Row -> Bool}

section

variable (isKey : ∀ row, removed row -> keyOf row = key)
include isKey

theorem lookup_eraseP_of_ne (ne : other ≠ key) (rows : List Row) :
    lookup keyOf other (rows.eraseP removed) = lookup keyOf other rows := by
  induction rows with
  | nil => rfl
  | cons row rows ih =>
    cases isRemoved : removed row with
    | true =>
      have absent : keyOf row ≠ other := fun equal => ne (equal.symm.trans (isKey row isRemoved))
      rw [eraseP_cons_of_pos isRemoved, lookup_cons, if_neg absent]
    | false =>
      have kept : ¬removed row = true := Bool.eq_false_iff.1 isRemoved
      rw [eraseP_cons_of_neg kept, lookup_cons, lookup_cons, ih]

omit [DecidableEq Key] in
/-- Where no key occurs twice all that has the key is gone. -/
theorem mem_eraseP (unique : (rows.map keyOf).Nodup)
    (found : ∃ row ∈ rows, removed row) : row ∈ rows.eraseP removed ↔ row ∈ rows ∧ keyOf row ≠ key := by
  induction rows with
  | nil =>
    obtain ⟨_, absurd, -⟩ := found
    cases absurd
  | cons first rows ih =>
    rw [map_cons, nodup_cons] at unique
    cases isRemoved : removed first with
    | true =>
      have isFirst := isKey first isRemoved
      rw [eraseP_cons_of_pos isRemoved, mem_cons]
      constructor
      · intro mem
        refine ⟨.inr mem, fun same => unique.1 ?_⟩
        exact mem_map.2 ⟨row, mem, same.trans isFirst.symm⟩
      · rintro ⟨rfl | mem, ne⟩
        · exact absurd isFirst ne
        · exact mem
    | false =>
      have kept : ¬removed first = true := Bool.eq_false_iff.1 isRemoved
      obtain ⟨old, isOld, oldRemoved⟩ := found
      have later : old ∈ rows := by
        obtain rfl | later := mem_cons.1 isOld
        · exact absurd oldRemoved kept
        · exact later
      have ne : keyOf first ≠ key := by
        intro same
        apply unique.1
        exact mem_map.2 ⟨old, later, (isKey old oldRemoved).trans same.symm⟩
      rw [eraseP_cons_of_neg kept, mem_cons, mem_cons, ih unique.2 ⟨old, later, oldRemoved⟩]
      constructor
      · rintro (rfl | ⟨mem, other⟩)
        · exact ⟨.inl rfl, ne⟩
        · exact ⟨.inr mem, other⟩
      · rintro ⟨rfl | mem, other⟩
        · exact .inl rfl
        · exact .inr ⟨mem, other⟩

omit [DecidableEq Key] in
theorem mem_keys_eraseP (unique : (rows.map keyOf).Nodup)
    (found : ∃ row ∈ rows, removed row) : other ∈ (rows.eraseP removed).map keyOf ↔
    other ∈ rows.map keyOf ∧ other ≠ key := by
  simp only [mem_map, mem_eraseP isKey unique found]
  constructor
  · rintro ⟨row, ⟨mem, ne⟩, rfl⟩
    exact ⟨⟨row, mem, rfl⟩, ne⟩
  · rintro ⟨⟨row, mem, rfl⟩, ne⟩
    exact ⟨row, ⟨mem, ne⟩, rfl⟩

end

theorem nodup_remove (unique : (rows.map keyOf).Nodup) : ((remove keyOf key rows).map keyOf).Nodup :=
  unique.sublist (List.Sublist.map keyOf eraseP_sublist)

theorem mem_keys_remove (unique : (rows.map keyOf).Nodup) (present : key ∈ rows.map keyOf) :
    other ∈ (remove keyOf key rows).map keyOf ↔ other ∈ rows.map keyOf ∧ other ≠ key := by
  apply mem_keys_eraseP _ unique
  · obtain ⟨old, isOld, same⟩ := mem_map.1 present
    exact ⟨old, isOld, decide_eq_true same⟩
  · exact fun row isRemoved => of_decide_eq_true isRemoved

theorem lookup_remove_of_ne (ne : other ≠ key) (rows : List Row) :
    lookup keyOf other (remove keyOf key rows) = lookup keyOf other rows :=
  lookup_eraseP_of_ne (fun _ isRemoved => of_decide_eq_true isRemoved) ne rows

end Remove

end Ns3.Semantics.KeyedList
