import Mathlib.Data.Nat.ModEq
import Mathlib.Data.List.Range

/-!
# Residues in a window

Among consecutive numbers, no more than a period of them, a residue occurs once or not at all.
-/

namespace Ns3.Semantics

open List

variable {period residue first count distance : Nat}

/-- How far the first number with a residue lies behind a given one. -/
theorem residue_at (small : residue < period) (near : distance < period) :
    (first + distance) % period = residue ↔ (residue + (period - first % period)) % period = distance := by
  have below : first % period < period := Nat.mod_lt _ (by omega)
  rw [Nat.add_mod_eq_ite, Nat.mod_eq_of_lt near]
  by_cases whole : first % period ≤ residue
  · have ahead : (residue + (period - first % period)) % period = residue - first % period := by
      rw [show residue + (period - first % period) = residue - first % period + period by omega, Nat.add_mod_right]
      exact Nat.mod_eq_of_lt (by omega)
    rw [ahead]
    split <;> omega
  · rw [Nat.mod_eq_of_lt (by omega : residue + (period - first % period) < period)]
    split <;> omega

theorem count_residue (small : residue < period) (window : count ≤ period) :
    (range' first count).countP (fun n => n % period = residue) =
      if (residue + (period - first % period)) % period < count then 1 else 0 := by
  induction count with
  | zero => simp
  | succ count ih =>
    have last := @residue_at period residue first count small (by omega)
    rw [range'_1_concat, countP_append, ih (by omega), countP_singleton]
    simp only [decide_eq_true_eq, last]
    split <;> split <;> split <;> omega

end Ns3.Semantics
