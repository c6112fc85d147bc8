import Mathlib.Order.Lattice

/-!
# Binary heaps

The entries of a heap stand at the places 1 to `size`, the children of a place at twice the place
and the place after it. Around one hole the order may be broken upwards, where the entry at the hole
may be too small, or downwards, where it may be too large. Exchanging the hole with its parent or
its smallest child moves it.
-/

namespace Ns3.Semantics.BinaryHeap

universe u v

variable {Entry : Type u} {Rank : Type v} [LinearOrder Rank] {rank : Entry -> Rank}
variable {entries : Nat -> Entry} {size hole child : Nat}

/-- The entry at a place is not smaller than its parent. -/
def InOrder (rank : Entry -> Rank) (entries : Nat -> Entry) (place : Nat) : Prop :=
  rank (entries (place / 2)) ≤ rank (entries place)

/-- No entry is smaller than its parent. -/
def Ordered (rank : Entry -> Rank) (entries : Nat -> Entry) (size : Nat) : Prop :=
  ∀ place, 2 ≤ place -> place ≤ size -> InOrder rank entries place

/-- The children of a hole are not smaller than its parent. -/
def Bridged (rank : Entry -> Rank) (entries : Nat -> Entry) (size hole : Nat) : Prop :=
  2 ≤ hole -> ∀ place ≤ size, place / 2 = hole -> rank (entries (hole / 2)) ≤ rank (entries place)

/-- Everything is in order but, perhaps, an entry that is smaller than its parent. -/
structure UpOrdered (rank : Entry -> Rank) (entries : Nat -> Entry) (size hole : Nat) : Prop where
  others : ∀ place, 2 ≤ place -> place ≤ size -> place ≠ hole -> InOrder rank entries place
  bridged : Bridged rank entries size hole

/-- Everything is in order but, perhaps, an entry that is larger than a child. -/
structure DownOrdered (rank : Entry -> Rank) (entries : Nat -> Entry) (size hole : Nat) : Prop where
  others : ∀ place, 2 ≤ place -> place ≤ size -> place / 2 ≠ hole -> InOrder rank entries place
  bridged : Bridged rank entries size hole

/-- Two entries exchanged. -/
def exchange (entries : Nat -> Entry) (a b place : Nat) : Entry :=
  if place = a then entries b else if place = b then entries a else entries place

theorem exchange_left (a b : Nat) : exchange entries a b a = entries b := by
  simp [exchange]

theorem exchange_right (a b : Nat) : exchange entries a b b = entries a := by
  by_cases same : b = a <;> simp [exchange, same]

theorem exchange_other {a b place : Nat} (notLeft : place ≠ a) (notRight : place ≠ b) :
    exchange entries a b place = entries place := by
  simp [exchange, notLeft, notRight]

theorem exchange_self (a : Nat) : exchange entries a a = entries := by
  funext place
  by_cases same : place = a <;> simp [exchange, same]

/-- The root of an ordered heap is least. -/
theorem Ordered.root_least (ordered : Ordered rank entries size) {place : Nat}
    (pos : 1 ≤ place) (inside : place ≤ size) : rank (entries 1) ≤ rank (entries place) := by
  induction place using Nat.strongRecOn with
  | ind place ih =>
    by_cases root : place = 1
    · rw [root]
    · exact le_trans (ih (place / 2) (by omega) (by omega) (by omega)) (ordered place (by omega) inside)

/-- An entry that is not smaller than its parent closes the hole. -/
theorem UpOrdered.finish (up : UpOrdered rank entries size hole)
    (stop : 2 ≤ hole -> InOrder rank entries hole) : Ordered rank entries size := by
  intro place pos inside
  by_cases here : place = hole
  · rw [here] at pos ⊢
    exact stop pos
  · exact up.others place pos inside here

/-- An entry that is smaller than its parent moves up. -/
theorem UpOrdered.exchange (up : UpOrdered rank entries size hole) (inner : 2 ≤ hole)
    (inside : hole ≤ size) (smaller : rank (entries hole) < rank (entries (hole / 2))) :
    UpOrdered rank (exchange entries hole (hole / 2)) size (hole / 2) := by
  constructor
  · intro place pos known notParent
    unfold InOrder
    by_cases here : place = hole
    · rw [here, exchange_left, exchange_right]
      exact le_of_lt smaller
    · rw [exchange_other here notParent]
      by_cases below : place / 2 = hole
      · rw [below, exchange_left]
        exact up.bridged inner place known below
      · by_cases sibling : place / 2 = hole / 2
        · rw [sibling, exchange_right]
          have above := up.others place pos known here
          rw [InOrder, sibling] at above
          exact le_trans (le_of_lt smaller) above
        · rw [exchange_other below sibling]
          exact up.others place pos known here
  · intro innerParent place known below
    have parent := up.others (hole / 2) innerParent (by omega) (by omega)
    rw [exchange_other (by omega) (by omega)]
    by_cases here : place = hole
    · rw [here, exchange_left]
      exact parent
    · rw [exchange_other here (by omega)]
      have above := up.others place (by omega) known here
      rw [InOrder, below] at above
      exact le_trans parent above

/-- An entry that is not larger than its children closes the hole. -/
theorem DownOrdered.finish (down : DownOrdered rank entries size hole)
    (stop : ∀ place, 2 ≤ place -> place ≤ size -> place / 2 = hole -> InOrder rank entries place) :
    Ordered rank entries size := by
  intro place pos inside
  by_cases below : place / 2 = hole
  · exact stop place pos inside below
  · exact down.others place pos inside below

/-- An entry that is not smaller than the smallest of its children moves down. -/
theorem DownOrdered.exchange (down : DownOrdered rank entries size hole)
    (below : child / 2 = hole) (inside : child ≤ size)
    (smallest : ∀ place, 2 ≤ place -> place ≤ size -> place / 2 = hole ->
      rank (entries child) ≤ rank (entries place)) (larger : rank (entries child) ≤ rank (entries hole)) :
    DownOrdered rank (exchange entries hole child) size child := by
  constructor
  · intro place inner known notBelow
    unfold InOrder
    by_cases here : place = hole
    · rw [here, exchange_left, exchange_other (by omega) (by omega)]
      exact down.bridged (by omega) child inside below
    · by_cases isChild : place = child
      · rw [isChild, below, exchange_left, exchange_right]
        exact larger
      · rw [exchange_other here isChild]
        by_cases sibling : place / 2 = hole
        · rw [sibling, exchange_left]
          exact smallest place inner known sibling
        · rw [exchange_other sibling notBelow]
          exact down.others place inner known sibling
  · intro inner place known grandchild
    rw [below, exchange_left, exchange_other (by omega) (by omega)]
    have above := down.others place (by omega) known (by omega)
    rwa [InOrder, grandchild] at above

/-- Appending an entry can break the order only at the new place. -/
theorem Ordered.append (ordered : Ordered rank entries size) (hole : Nat) (new : hole = size + 1) :
    UpOrdered rank entries hole hole where
  others := fun place pos inside other => ordered place pos (by omega)
  bridged := fun _ place inside below => by omega

/-- The last entry fills a hole, and can break the order only downwards if it is
not smaller than the parent of the hole. -/
theorem Ordered.fill (ordered : Ordered rank entries (size + 1)) (inside : hole ≤ size)
    (above : 2 ≤ hole -> rank (entries (hole / 2)) ≤ rank (entries (size + 1))) :
    DownOrdered rank (BinaryHeap.exchange entries hole (size + 1)) size hole := by
  constructor
  · intro place inner known notBelow
    unfold InOrder
    by_cases here : place = hole
    · rw [here] at inner ⊢
      rw [exchange_left, exchange_other (by omega) (by omega)]
      exact above inner
    · rw [exchange_other notBelow (by omega), exchange_other here (by omega)]
      exact ordered place inner (by omega)
  · intro inner place known below
    rw [exchange_other (by omega) (by omega), exchange_other (by omega) (by omega)]
    have parent := ordered hole inner (by omega)
    have child := ordered place (by omega) (by omega)
    rw [InOrder, below] at child
    exact le_trans parent child

end Ns3.Semantics.BinaryHeap
