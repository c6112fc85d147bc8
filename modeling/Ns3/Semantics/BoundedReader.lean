import Mathlib.Data.List.Forall2

/-!
# Readers that watch the declared lengths

A reader takes items from the front of what there is. It stops at the first thing that goes wrong:
an assertion that fails, an item that is read behind the end or behind what a length field has
declared, or a counter that wraps. `Reads` says of a reader exactly what it reads, and has a rule
for each way of putting readers together.
-/

namespace Ns3.Semantics

open List

universe u

/-- What goes wrong first. -/
inductive Fault where
  | assertion
  | pastEnd
  | pastLength
  | wraps
  deriving DecidableEq

/-- What is in front of a reader, and how many items of it have been declared. -/
structure Cursor (Item : Type u) where
  rest : List Item
  left : Nat
  deriving DecidableEq

abbrev BoundedReader (Item : Type u) :=
  StateT (Cursor Item) (Except Fault)

namespace BoundedReader

variable {Item Value Other : Type u}

def readItem : BoundedReader Item Item := fun cursor =>
  match cursor.rest, cursor.left with
  | _, 0 => .error .pastLength
  | [], _ => .error .pastEnd
  | item :: rest, left + 1 => .ok (item, ⟨rest, left⟩)

def check (condition : Prop) [Decidable condition] : BoundedReader Item PUnit :=
  if condition then pure PUnit.unit else fun _ => .error .assertion

def fail (fault : Fault) : BoundedReader Item Value := fun _ =>
  .error fault

/-- Reads no more than a number of items. -/
def within (limit : Nat) (reader : BoundedReader Item Value) : BoundedReader Item Value := fun cursor => do
  let (value, next) ← reader ⟨cursor.rest, min limit cursor.left⟩
  return (value, ⟨next.rest, cursor.left - (cursor.rest.length - next.rest.length)⟩)

def readMany (reader : BoundedReader Item Value) : Nat -> BoundedReader Item (List Value)
  | 0 => pure []
  | count + 1 => do
      let value ← reader
      let values ← readMany reader count
      return value :: values

/-- The reader takes exactly the items of a format, from any cursor that has them in front and
declared. -/
def Reads (reader : BoundedReader Item Value) (Format : Value -> List Item -> Prop) : Prop :=
  ∀ cursor value next, reader cursor = .ok (value, next) ↔
    ∃ items, Format value items ∧ cursor = ⟨items ++ next.rest, items.length + next.left⟩

variable {reader : BoundedReader Item Value} {Format Same : Value -> List Item -> Prop}

theorem Reads.congr (reads : Reads reader Format) (same : ∀ value items, Format value items ↔ Same value items) :
    Reads reader Same := by
  intro cursor value next
  rw [reads cursor value next]
  simp only [same]

theorem reads_pure (value : Value) :
    Reads (pure value : BoundedReader Item Value) fun read items => read = value ∧ items = [] := by
  intro cursor read next
  constructor
  · intro same
    cases same
    exact ⟨[], ⟨rfl, rfl⟩, by rw [nil_append, length_nil, Nat.zero_add]⟩
  · rintro ⟨items, ⟨rfl, rfl⟩, rfl⟩
    rw [nil_append, length_nil, Nat.zero_add]
    rfl

theorem reads_readItem : Reads (readItem : BoundedReader Item Item) fun item items => items = [item] := by
  rintro ⟨rest, left⟩ item next
  constructor
  · intro read
    cases left with
    | zero => cases rest <;> cases read
    | succ left =>
      cases rest with
      | nil => cases read
      | cons first rest =>
        cases read
        exact ⟨[item], rfl, by rw [singleton_append, length_singleton, Nat.add_comm]⟩
  · rintro ⟨items, rfl, same⟩
    rw [singleton_append, length_singleton, Nat.add_comm] at same
    rw [same]
    rfl

theorem reads_check (condition : Prop) [Decidable condition] :
    Reads (check condition : BoundedReader Item PUnit) fun _ items => condition ∧ items = [] := by
  by_cases holds : condition
  · rw [check, if_pos holds]
    apply (reads_pure PUnit.unit).congr
    simp [holds]
  · rw [check, if_neg holds]
    intro cursor value next
    simp [holds]

theorem reads_fail (fault : Fault) : Reads (fail fault : BoundedReader Item Value) fun _ _ => False := by
  intro cursor value next
  simp [fail]

variable {other : Other} {Further : Value -> Other -> List Item -> Prop}

theorem except_bind_eq_ok {result : Except Fault Value} {further : Value -> Except Fault Other} :
    (result >>= further) = .ok other ↔ ∃ value, result = .ok value ∧ further value = .ok other := by
  cases result <;> simp [bind, Except.bind]

variable {further : Value -> BoundedReader Item Other}

theorem bind_eq_ok {cursor next : Cursor Item} : (reader >>= further) cursor = .ok (other, next) ↔
    ∃ value middle, reader cursor = .ok (value, middle) ∧ further value middle = .ok (other, next) := by
  change (reader cursor >>= fun read => further read.1 read.2) = _ ↔ _
  rw [except_bind_eq_ok, Prod.exists]

/-- What has been read first may decide how to go on. -/
theorem Reads.bind_of
    (reads : Reads reader Format) (each : ∀ value front, Format value front -> Reads (further value) (Further value)) :
    Reads (reader >>= further) fun other items =>
      ∃ value front back, Format value front ∧ Further value other back ∧ items = front ++ back := by
  intro cursor other next
  rw [bind_eq_ok]
  constructor
  · rintro ⟨value, middle, first, second⟩
    obtain ⟨front, isFront, rfl⟩ := (reads cursor value middle).1 first
    obtain ⟨back, isBack, rfl⟩ := (each value front isFront middle other next).1 second
    refine ⟨front ++ back, ⟨value, front, back, isFront, isBack, rfl⟩, ?_⟩
    rw [append_assoc, length_append, Nat.add_assoc]
  · rintro ⟨items, ⟨value, front, back, isFront, isBack, rfl⟩, rfl⟩
    refine ⟨value, ⟨back ++ next.rest, back.length + next.left⟩, (reads _ _ _).2 ⟨front, isFront, ?_⟩,
      (each value front isFront _ _ _).2 ⟨back, isBack, rfl⟩⟩
    rw [append_assoc, length_append, Nat.add_assoc]

theorem Reads.bind (reads : Reads reader Format) (each : ∀ value, Reads (further value) (Further value)) :
    Reads (reader >>= further) fun other items =>
      ∃ value front back, Format value front ∧ Further value other back ∧ items = front ++ back :=
  reads.bind_of fun value _ _ => each value

theorem Reads.within (limit : Nat) (reads : Reads reader Format) :
    Reads (within limit reader) fun value items => Format value items ∧ items.length ≤ limit := by
  rintro ⟨rest, left⟩ value next
  change ((reader ⟨rest, min limit left⟩ >>= fun read => _) = _) ↔ _
  constructor
  · intro read
    cases inner : reader ⟨rest, min limit left⟩ with
    | error fault =>
      rw [inner] at read
      cases read
    | ok result =>
      obtain ⟨found, middle⟩ := result
      rw [inner] at read
      cases read
      obtain ⟨items, isFormat, same⟩ := (reads _ _ _).1 inner
      injection same with isRest isLeft
      refine ⟨items, ⟨isFormat, by omega⟩, ?_⟩
      have isLeft : left = items.length + (left - items.length) := by omega
      rw [isRest, length_append, Nat.add_sub_cancel, ← isLeft]
  · rintro ⟨items, ⟨isFormat, isShort⟩, same⟩
    injection same with isRest isLeft
    have inner : reader ⟨rest, min limit left⟩ = .ok (value, ⟨next.rest, min limit left - items.length⟩) := by
      refine (reads _ _ _).2 ⟨items, isFormat, ?_⟩
      have isMin : min limit left = items.length + (min limit left - items.length) := by omega
      rw [isRest, ← isMin]
    rw [inner]
    change Except.ok (value, Cursor.mk next.rest (left - (rest.length - next.rest.length))) = _
    rw [isRest, length_append, isLeft, Nat.add_sub_cancel, Nat.add_sub_cancel_left]

/-- The reader takes at least so many items. -/
def Needs (reader : BoundedReader Item Value) (count : Nat) : Prop :=
  ∀ cursor value next, reader cursor = .ok (value, next) -> count ≤ cursor.left

theorem needs_zero (reader : BoundedReader Item Value) : Needs reader 0 :=
  fun _ _ _ _ => Nat.zero_le _

theorem Reads.needs_bind {more : Nat} (count : Nat) (reads : Reads reader Format)
    (sized : ∀ value items, Format value items -> items.length = count) (needs : ∀ value, Needs (further value) more) :
    Needs (reader >>= further) (count + more) := by
  intro cursor other next read
  obtain ⟨value, middle, first, second⟩ := bind_eq_ok.1 read
  obtain ⟨items, isFormat, rfl⟩ := (reads _ _ _).1 first
  rw [sized value items isFormat]
  exact Nat.add_le_add_left (needs value _ _ _ second) count

theorem Needs.within_less {limit count : Nat} (needs : Needs reader count) (less : limit < count) :
    Reads (BoundedReader.within limit reader) fun _ _ => False := by
  rintro ⟨rest, left⟩ value next
  simp only [false_and, exists_false, iff_false]
  intro read
  change (reader ⟨rest, min limit left⟩ >>= fun read => _) = _ at read
  cases inner : reader ⟨rest, min limit left⟩ with
  | error fault =>
    rw [inner] at read
    cases read
  | ok result =>
    have enough : count ≤ min limit left := needs _ _ _ inner
    omega

/-- Many of the same kind, each written in one way. -/
theorem Reads.readMany {write : Value -> List Item}
    (reads : Reads reader fun value items => items = write value) (count : Nat) :
    Reads (readMany reader count) fun values items => values.length = count ∧ items = values.flatMap write := by
  induction count with
  | zero =>
    apply (reads_pure []).congr
    intro values items
    rw [length_eq_zero_iff]
    constructor
    · rintro ⟨rfl, rfl⟩
      exact ⟨rfl, rfl⟩
    · rintro ⟨rfl, rfl⟩
      exact ⟨rfl, rfl⟩
  | succ count ih =>
    apply (reads.bind fun value => ih.bind fun values => reads_pure (value :: values)).congr
    intro values items
    constructor
    · rintro ⟨value, front, back, rfl, ⟨others, middle, last, ⟨isCount, rfl⟩, ⟨rfl, rfl⟩, rfl⟩, rfl⟩
      rw [length_cons, isCount, flatMap_cons, append_nil]
      exact ⟨rfl, rfl⟩
    · rintro ⟨isCount, rfl⟩
      obtain ⟨value, others, rfl⟩ := exists_cons_of_length_eq_add_one isCount
      refine ⟨value, write value, others.flatMap write, rfl,
        ⟨others, others.flatMap write, [], ⟨Nat.succ.inj isCount, rfl⟩, ⟨rfl, rfl⟩, (append_nil _).symm⟩, ?_⟩
      rw [flatMap_cons]

end BoundedReader

end Ns3.Semantics
