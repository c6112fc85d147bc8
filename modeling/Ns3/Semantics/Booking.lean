import Mathlib.Data.List.Induction
import Std.Data.TreeMap

/-!
# Bookings against a capacity

A map of counters holds what is booked for each key. A `Policy` decides from the counter alone
whether one more unit is admitted, never beyond the capacity of a limited key. Refused reservations
leave the map as it is, so a key that still admits has taken them all.
-/

namespace Ns3.Semantics.Booking

open List
open Std (TreeMap TransCmp LawfulEqCmp)

universe u

variable {Key : Type u} {cmp : Key -> Key -> Ordering}

/-- When one more unit of a key is admitted. Capacity 0 stands for no limit. -/
structure Policy (Key : Type u) where
  admits : Key -> Option UInt32 -> Bool
  capacity : Key -> UInt32
  within : ∀ {key entry}, admits key entry = true -> 0 < capacity key -> entry.getD 0 < capacity key

/-- What is booked for a key. -/
def load (counts : TreeMap Key UInt32 cmp) (key : Key) : UInt32 :=
  counts[key]?.getD 0

/-- Book one more unit of a key. -/
def increment (counts : TreeMap Key UInt32 cmp) (key : Key) : TreeMap Key UInt32 cmp :=
  counts.insert key (load counts key + 1)

/-- Book one more unit of a key if the policy admits it. -/
def reserve (policy : Policy Key) (counts : TreeMap Key UInt32 cmp) (key : Key) : TreeMap Key UInt32 cmp :=
  if policy.admits key counts[key]? then increment counts key else counts

/-- Bookings that were each admitted when they were made. -/
inductive Booked (policy : Policy Key) (start : TreeMap Key UInt32 cmp) :
    List Key -> TreeMap Key UInt32 cmp -> Prop where
  | none : Booked policy start [] start
  | more {keys counts key} (prior : Booked policy start keys counts)
      (admitted : policy.admits key counts[key]? = true) :
      Booked policy start (keys ++ [key]) (increment counts key)

variable {policy : Policy Key} {counts : TreeMap Key UInt32 cmp} {key other : Key} {keys : List Key}
  {final : TreeMap Key UInt32 cmp}

/-- Nothing is booked for a key that is never admitted. -/
theorem Booked.not_mem (booked : Booked policy counts keys final)
    (blocked : ∀ entry, policy.admits key entry = false) : key ∉ keys := by
  induction booked with
  | none => exact not_mem_nil
  | @more keys current last prior admitted ih =>
    intro mem
    rcases mem_append.mp mem with before | isLast
    · exact ih before
    · obtain rfl := mem_singleton.mp isLast
      simp [blocked] at admitted

variable [TransCmp cmp]

/-- Within the capacity the counters do not wrap around. -/
theorem load_increment (admitted : policy.admits key counts[key]? = true) (limited : 0 < policy.capacity key) :
    (load (increment counts key) key).toNat = (load counts key).toNat + 1 := by
  have room := UInt32.lt_iff_toNat_lt.mp (policy.within admitted limited)
  have bound := (policy.capacity key).toNat_lt
  have one : (1 : UInt32).toNat = 1 := rfl
  simp only [load, increment, TreeMap.getElem?_insert_self, Option.getD_some, UInt32.toNat_add, one]
  omega

variable [LawfulEqCmp cmp]

theorem getElem?_increment_of_ne (ne : key ≠ other) : (increment counts key)[other]? = counts[other]? := by
  simp [increment, TreeMap.getElem?_insert, ne]

theorem Booked.getElem?_of_not_mem (booked : Booked policy counts keys final) (absent : key ∉ keys) :
    final[key]? = counts[key]? := by
  induction booked with
  | none => rfl
  | @more keys current last prior admitted ih =>
    obtain ⟨notBefore, notLast⟩ : key ∉ keys ∧ key ≠ last := by simpa using absent
    rw [getElem?_increment_of_ne (Ne.symm notLast), ih notBefore]

variable [DecidableEq Key]

/-- A key that admits another unit after reservations has taken all of them. -/
theorem load_reserved (reservations : List Key)
    (admits : policy.admits key (reservations.foldl (reserve policy) counts)[key]? = true)
    (limited : 0 < policy.capacity key) :
    (load (reservations.foldl (reserve policy) counts) key).toNat =
      (load counts key).toNat + reservations.count key := by
  induction reservations using reverseRecOn with
  | nil => simp
  | append_singleton reservations last ih =>
    rw [foldl_append, foldl_cons, foldl_nil] at admits ⊢
    generalize reservations.foldl (reserve policy) counts = reserved at *
    rw [count_append, count_singleton]
    by_cases same : last = key
    · subst same
      by_cases taken : policy.admits last reserved[last]? = true
      · simp only [reserve, taken, if_true] at admits ⊢
        rw [load_increment taken limited, ih taken]
        simp [Nat.add_assoc]
      · -- A refused reservation leaves the counter, so the key still refuses.
        simp only [reserve, if_neg taken] at admits
        exact absurd admits taken
    · have unchanged : (reserve policy reserved last)[key]? = reserved[key]? := by
        unfold reserve
        split
        · exact getElem?_increment_of_ne same
        · rfl
      rw [unchanged] at admits
      simp only [load, unchanged]
      simpa [same, load] using ih admits

/-- A booked key was admitted from the start on, and its bookings all count. -/
theorem Booked.load_eq (booked : Booked policy counts keys final) (limited : 0 < policy.capacity key)
    (mem : key ∈ keys) :
    policy.admits key counts[key]? = true ∧ (load final key).toNat = (load counts key).toNat + keys.count key ∧
      (load final key).toNat ≤ (policy.capacity key).toNat := by
  induction booked with
  | none => cases mem
  | @more keys current last prior admitted ih =>
    rw [count_append, count_singleton]
    by_cases same : last = key
    · subst same
      have counted := load_increment admitted limited
      have room := UInt32.lt_iff_toNat_lt.mp (policy.within admitted limited)
      change (load current last).toNat < _ at room
      by_cases before : last ∈ keys
      · obtain ⟨admits, total, -⟩ := ih before
        refine ⟨admits, ?_, by omega⟩
        simp only [beq_self_eq_true, if_true]
        omega
      · have unchanged := prior.getElem?_of_not_mem before
        rw [unchanged] at admitted
        simp only [load, unchanged] at counted room ⊢
        refine ⟨admitted, ?_, by omega⟩
        simp only [beq_self_eq_true, if_true, count_eq_zero_of_not_mem before]
        omega
    · have inKeys : key ∈ keys := by
        simpa [Ne.symm same] using mem
      obtain ⟨admits, total, within⟩ := ih inKeys
      have unchanged : (increment current last)[key]? = current[key]? :=
        getElem?_increment_of_ne same
      simp only [load, unchanged] at total within ⊢
      exact ⟨admits, by simpa [same] using total, within⟩

/-- What a limited key held before, the reservations for it and the bookings on
top of them stay within its capacity once anything was booked. -/
theorem Booked.le_capacity {reservations : List Key}
    (booked : Booked policy (reservations.foldl (reserve policy) counts) keys final)
    (limited : 0 < policy.capacity key) (mem : key ∈ keys) :
    (load counts key).toNat + reservations.count key + keys.count key ≤ (policy.capacity key).toNat := by
  obtain ⟨admits, total, within⟩ := booked.load_eq limited mem
  rw [load_reserved reservations admits limited] at total
  omega

end Ns3.Semantics.Booking
