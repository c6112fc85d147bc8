import Ns3.Nr.Rlc.SequenceNumber10

/-!
# Sequence numbers in a window

Behind a number of 10 bits stands one that is not reduced. As long as the numbers that are compared
lie in the 1024 ones from a common base on, the comparisons are those of the numbers behind.
-/

namespace Ns3.Nr.SequenceNumber10

/-- The number of 10 bits of an unreduced number, to be compared from a base on. -/
def reading (base n : Nat) : SequenceNumber10 where
  value := (ofValue n).value
  modulusBase := base % 1024

variable {base further n m : Nat}

@[simp] theorem reading_value : (reading base n).value = Fin.ofNat 1024 n := rfl

@[simp] theorem reading_getValue : (reading base n).getValue = n % 1024 := rfl

@[simp] theorem reading_setModulusBase : (reading base n).setModulusBase (further % 1024) = reading further n := rfl

theorem ofNat_add_left (n delta : Nat) :
    Fin.ofNat 1024 ((Fin.ofNat 1024 n).val + delta) = Fin.ofNat 1024 (n + delta) := by
  apply Fin.ext
  simp [Fin.ofNat]

@[simp] theorem reading_add (delta : Nat) : (reading base n).add delta = reading base (n + delta) := by
  rw [add, reading_value, ofNat_add_left]
  rfl

@[simp] theorem reading_increment : (reading base n).increment = reading base (n + 1) := by
  rw [increment, reading_value, ofNat_add_left]
  rfl

theorem reading_fromBase (above : base ≤ n) (below : n < base + 1024) : (reading base n).fromBase =
    if base % 1024 + (n - base) < 1024 then n - base else 64512 + (n - base) := by
  have value : ((reading base n).value : Nat) = n % 1024 := rfl
  have isBase : (reading base n).modulusBase = base % 1024 := rfl
  rw [fromBase, value, isBase, Int.tmod_eq_emod]
  split <;> split <;> omega

theorem reading_gt (nAbove : base ≤ n) (nBelow : n < base + 1024) (mAbove : base ≤ m) (mBelow : m < base + 1024) :
    (reading base n).gt (reading base m) = decide (m < n) := by
  rw [gt, reading_fromBase nAbove nBelow, reading_fromBase mAbove mBelow]
  apply decide_eq_decide.mpr
  split <;> split <;> omega

theorem ofNat_inj (near : n < m + 1024) (near' : m < n + 1024) : Fin.ofNat 1024 n = Fin.ofNat 1024 m ↔ n = m := by
  rw [Fin.ext_iff]
  change n % 1024 = m % 1024 ↔ n = m
  omega

theorem ofNat_add_1024 (n : Nat) : Fin.ofNat 1024 (n + 1024) = Fin.ofNat 1024 n := by
  apply Fin.ext
  change (n + 1024) % 1024 = n % 1024
  omega

theorem reading_eq (nAbove : base ≤ n) (nBelow : n < base + 1024) (mAbove : base ≤ m) (mBelow : m < base + 1024) :
    (reading base n).eq (reading base m) = decide (n = m) := by
  apply decide_eq_decide.mpr
  exact ofNat_inj (by omega) (by omega)

theorem reading_lt (nAbove : base ≤ n) (nBelow : n < base + 1024) (mAbove : base ≤ m) (mBelow : m < base + 1024) :
    (reading base n).lt (reading base m) = decide (n < m) := by
  rw [lt, reading_gt nAbove nBelow mAbove mBelow, reading_eq nAbove nBelow mAbove mBelow]
  by_cases less : n < m
  · simp [less, Nat.not_lt.mpr (Nat.le_of_lt less), Nat.ne_of_lt less]
  · have other : m < n ∨ n = m := by omega
    rcases other with greater | same <;> simp [*]

theorem reading_le (nAbove : base ≤ n) (nBelow : n < base + 1024) (mAbove : base ≤ m) (mBelow : m < base + 1024) :
    (reading base n).le (reading base m) = decide (n ≤ m) := by
  rw [le, reading_gt nAbove nBelow mAbove mBelow]
  by_cases less : m < n
  · simp [less]
  · simp [less, Nat.le_of_not_lt less]

theorem reading_ge (nAbove : base ≤ n) (nBelow : n < base + 1024) (mAbove : base ≤ m) (mBelow : m < base + 1024) :
    (reading base n).ge (reading base m) = decide (m ≤ n) := by
  rw [ge, reading_gt nAbove nBelow mAbove mBelow, reading_eq nAbove nBelow mAbove mBelow]
  by_cases less : m ≤ n
  · have cases : m < n ∨ n = m := by omega
    rcases cases with greater | same <;> simp [*]
  · have not : ¬m < n ∧ n ≠ m := by omega
    simp [less, not]

/-- The first number from a base on that has the given 10 bits. -/
def earliest (base : Nat) (value : Fin 1024) : Nat :=
  base + (value.val + (1024 - base % 1024)) % 1024

theorem earliest_ofNat (above : base ≤ n) (below : n < base + 1024) : earliest base (Fin.ofNat 1024 n) = n := by
  change base + (n % 1024 + (1024 - base % 1024)) % 1024 = n
  omega

theorem ofNat_earliest (base : Nat) (value : Fin 1024) : Fin.ofNat 1024 (earliest base value) = value := by
  apply Fin.ext
  have small := value.isLt
  change (base + (value.val + (1024 - base % 1024)) % 1024) % 1024 = value.val
  omega

theorem le_earliest (base : Nat) (value : Fin 1024) : base ≤ earliest base value := by
  unfold earliest
  omega

theorem earliest_lt (base : Nat) (value : Fin 1024) : earliest base value < base + 1024 := by
  unfold earliest
  omega

theorem checked_reading {Error : Type} (failure : Error) (comparison : SequenceNumber10 -> SequenceNumber10 -> Bool) :
    checked failure comparison (reading base n) (reading base m) = .ok (comparison (reading base n) (reading base m)) :=
  if_pos rfl

theorem visited_reading {count rounds : Nat} (above : base ≤ n) (below : n + count < base + 1024)
    (enough : count < rounds) :
    visited (reading base (n + count)) rounds (reading base n) = (List.range' n count).map (reading base) := by
  induction count generalizing n rounds with
  | zero =>
    obtain ⟨rounds, rfl⟩ := Nat.exists_eq_succ_of_ne_zero (by omega : rounds ≠ 0)
    rw [visited, Nat.add_zero, reading_lt above (by omega) above (by omega)]
    simp
  | succ count ih =>
    obtain ⟨rounds, rfl⟩ := Nat.exists_eq_succ_of_ne_zero (by omega : rounds ≠ 0)
    have further := @ih (n + 1) rounds (by omega) (by omega) (by omega)
    rw [show n + (count + 1) = n + 1 + count by omega]
    rw [visited, reading_lt above (by omega) (by omega) (by omega), reading_increment, further]
    simp [List.range'_succ, show n < n + 1 + count by omega]

theorem upTo_reading (above : base ≤ n) (ordered : n ≤ m) (below : m < base + 1024) :
    (reading base n).upTo (reading base m) = (List.range' n (m - n)).map (reading base) := by
  have whole : m = n + (m - n) := by omega
  conv_lhs => rw [whole]
  exact visited_reading above (by omega) (by omega)

end Ns3.Nr.SequenceNumber10
