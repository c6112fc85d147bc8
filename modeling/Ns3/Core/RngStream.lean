import Mathlib.Data.Int.ModEq
import Mathlib.LinearAlgebra.Matrix.Notation
import Mathlib.Tactic.Linarith

/-!
# Random number streams

`RngStream` draws from a generator with two components, each a linear recurrence modulo a prime, and
jumps ahead by powers of their matrices. Its doubles are integers, and there is no result where one
of them would not be exact or a cast is out of range.
-/

namespace Ns3.Core

open Option Nat Matrix List

local instance threeNonzero : NeZero 3 :=
  ⟨by decide⟩

namespace MRG32k3a

def m1 : Int := 4294967087

def m2 : Int := 4294944443

def norm : Rat :=
  1 / (m1 + 1)

def a12 : Int := 1403580

def a13n : Int := 810728

def a21 : Int := 527612

def a23n : Int := 1370589

def two17 : Int := 131072

def two53 : Int := 9007199254740992

abbrev Vector3 := Fin 3 -> Int

abbrev Matrix3 := Matrix (Fin 3) (Fin 3) Int

def A1p0 : Matrix3 :=
  !![0, 1, 0; 0, 0, 1; -810728, 1403580, 0]

def A2p0 : Matrix3 :=
  !![0, 1, 0; 0, 0, 1; -1370589, 0, 527612]

/-- A double that is an integer is exact below 2^53. -/
def exact (value : Int) : Option Int :=
  if |value| < two53 then some value else none

/-- `static_cast<int32_t>`. -/
def toInt32 (value : Int) : Option Int :=
  if -2 ^ 31 ≤ value ∧ value < 2 ^ 31 then some value else none

/-- The product with its first factor in two parts. -/
def decomposed (a s c m : Int) : Option Int := do
  let a1 ← toInt32 (a.tdiv two17)
  let high ← exact (a1 * two17)
  let a ← exact (a - high)
  let v ← exact (a1 * s)
  let a1 ← toInt32 (v.tdiv m)
  let multiple ← exact (a1 * m)
  let v ← exact (v - multiple)
  let v ← exact (v * two17)
  let low ← exact (a * s)
  let v ← exact (v + low)
  exact (v + c)

/-- The product at once. -/
def direct (a s c : Int) : Option Int := do
  let product ← exact (a * s)
  exact (product + c)

/-- What is left modulo `m`. -/
def reduced (v m : Int) : Option Int := do
  let k ← toInt32 (v.tdiv m)
  let multiple ← exact (k * m)
  let v ← exact (v - multiple)
  if v < 0 then exact (v + m) else some v

def multModM (a s c m : Int) : Option Int := do
  let v := a * s + c
  let v ← if two53 ≤ v ∨ v ≤ -two53 then decomposed a s c m else direct a s c
  reduced v m

theorem exact_eq {value : Int} (small : |value| < 2 ^ 53) : exact value = some value :=
  if_pos small

theorem toInt32_eq {value : Int} (small : |value| < 2 ^ 31) : toInt32 value = some value := by
  rw [abs_lt] at small
  exact if_pos ⟨small.1.le, small.2⟩

variable {a s c m v : Int}

/-- A quotient that is cut off at the point, and what it leaves. -/
theorem tdiv_spec (v : Int) (pos : 0 < m) : |v.tdiv m| * m ≤ |v| ∧ |v - v.tdiv m * m| < m := by
  have remainder : v - v.tdiv m * m = v.tmod m := by
    rw [Int.tmod_def, Int.mul_comm]
  constructor
  · have quotient := Int.natAbs_tdiv v m
    have bound : (v.tdiv m).natAbs * m.natAbs ≤ v.natAbs := quotient ▸ div_mul_le_self _ _
    calc |v.tdiv m| * m
      _ = ((v.tdiv m).natAbs * m.natAbs : Nat) := by
        rw [Int.natCast_mul, Int.natCast_natAbs, Int.natCast_natAbs, abs_of_pos pos]
      _ ≤ (v.natAbs : Nat) := Int.ofNat_le.mpr bound
      _ = |v| := Int.natCast_natAbs v
  · rw [remainder, abs_lt]
    exact ⟨Int.lt_tmod_of_pos v pos, Int.tmod_lt_of_pos v pos⟩

theorem tdiv_lt {bound : Int} (pos : 0 < m) (small : |v| < bound * m) : |v.tdiv m| < bound :=
  lt_of_mul_lt_mul_right ((tdiv_spec v pos).1.trans_lt small) pos.le

/-- The moduli are in this range. -/
structure Modulus (m : Int) : Prop where
  low : 2 ^ 31 ≤ m
  high : m ≤ 2 ^ 32

theorem modulus_m1 : Modulus m1 :=
  ⟨by decide, by decide⟩

theorem modulus_m2 : Modulus m2 :=
  ⟨by decide, by decide⟩

theorem Modulus.pos (modulus : Modulus m) : 0 < m :=
  lt_of_lt_of_le (by decide) modulus.low

theorem reduced_eq (modulus : Modulus m) (small : |v| < 2 ^ 53) : reduced v m = some (v % m) := by
  have pos := modulus.pos
  obtain ⟨multiple, remainder⟩ := tdiv_spec v pos
  have quotient : |v.tdiv m| < 2 ^ 22 := tdiv_lt pos (by have := modulus.low; omega)
  have exactMultiple : |v.tdiv m * m| < 2 ^ 53 := by
    rw [abs_mul, abs_of_pos pos]
    exact multiple.trans_lt small
  have isRemainder : ∀ rest quotient : Int, rest + m * quotient = v -> 0 ≤ rest -> rest < m -> rest = v % m :=
    fun rest quotient sum least most => ((Int.ediv_emod_unique pos).mpr ⟨sum, least, most⟩).2.symm
  have high := modulus.high
  simp only [reduced, toInt32_eq (quotient.trans (by decide)), exact_eq exactMultiple, bind_eq_bind, bind_some,
    exact_eq (remainder.trans (by omega))]
  have bounds := abs_lt.mp remainder
  split_ifs with negative
  · rw [exact_eq (abs_lt.mpr ⟨by omega, by omega⟩)]
    congr 1
    exact isRemainder _ (v.tdiv m - 1) (by ring) (by omega) (by omega)
  · congr 1
    exact isRemainder _ (v.tdiv m) (by ring) (by omega) (by omega)

/-- The factor is in two parts of which the products are exact. -/
theorem decomposed_eq (modulus : Modulus m) (smallA : |a| < m) (smallS : |s| < m) (smallC : |c| < m) :
    ∃ v, decomposed a s c m = some v ∧ v % m = (a * s + c) % m ∧ |v| < 2 ^ 53 := by
  have high := modulus.high
  have low := modulus.low
  have isTwo17 : two17 = 2 ^ 17 := rfl
  -- Bounds of the two parts of the factor, and of what the product of the high one leaves.
  have highPart : |a.tdiv two17| < 2 ^ 15 := tdiv_lt (by decide) (by omega)
  obtain ⟨highMultiple, lowPart⟩ := tdiv_spec a (show 0 < two17 by decide)
  rw [isTwo17] at highMultiple lowPart highPart
  generalize isHigh : a.tdiv (2 ^ 17) = a1 at highMultiple lowPart highPart
  have highProduct : |a1 * s| < 2 ^ 47 := by
    rw [abs_mul]
    nlinarith [abs_nonneg a1, abs_nonneg s]
  obtain ⟨multiple, left⟩ := tdiv_spec (a1 * s) modulus.pos
  have quotient : |(a1 * s).tdiv m| < 2 ^ 16 := tdiv_lt modulus.pos (by omega)
  generalize isQuotient : (a1 * s).tdiv m = k at multiple left quotient
  have exactMultiple : |k * m| < 2 ^ 53 := by
    rw [abs_mul, abs_of_pos modulus.pos]
    omega
  have exactHigh : |a1 * 2 ^ 17| < 2 ^ 53 := by
    rw [abs_mul, abs_of_pos (by decide : (0 : Int) < 2 ^ 17)]
    omega
  have shifted : |(a1 * s - k * m) * 2 ^ 17| < 2 ^ 49 := by
    rw [abs_mul, abs_of_pos (by decide : (0 : Int) < 2 ^ 17)]
    omega
  have lowProduct : |(a - a1 * 2 ^ 17) * s| < 2 ^ 49 := by
    rw [abs_mul]
    nlinarith [abs_nonneg (a - a1 * 2 ^ 17), abs_nonneg s]
  have sum := abs_add_le ((a1 * s - k * m) * 2 ^ 17) ((a - a1 * 2 ^ 17) * s)
  have total := abs_add_le ((a1 * s - k * m) * 2 ^ 17 + (a - a1 * 2 ^ 17) * s) c
  refine ⟨(a1 * s - k * m) * 2 ^ 17 + (a - a1 * 2 ^ 17) * s + c, ?_, ?_, by omega⟩
  · simp only [decomposed, isTwo17, isHigh, isQuotient, bind_eq_bind, bind_some,
      toInt32_eq (highPart.trans (by decide)), exact_eq exactHigh, exact_eq (lowPart.trans (by decide)),
      exact_eq (highProduct.trans (by decide)), toInt32_eq (quotient.trans (by decide)), exact_eq exactMultiple,
      exact_eq (left.trans (by omega)), exact_eq (shifted.trans (by decide)), exact_eq (lowProduct.trans (by decide)),
      exact_eq (sum.trans_lt (by omega) : _ < (2 : Int) ^ 53),
        exact_eq (total.trans_lt (by omega) : _ < (2 : Int) ^ 53)]
  · have same : (a1 * s - k * m) * 2 ^ 17 + (a - a1 * 2 ^ 17) * s + c = a * s + c + m * (-(k * 2 ^ 17)) := by ring
    rw [same, Int.add_mul_emod_self_left]

/-- The factors that occur: remainders, or small numbers of any sign. -/
def Factors (a s m : Int) : Prop :=
  |a| < m ∧ |s| < m ∧ (0 ≤ a ∧ 0 ≤ s ∨ |a| < 2 ^ 21)

theorem multModM_eq (modulus : Modulus m) (factors : Factors a s m) (least : 0 ≤ c) (most : c < m) :
    multModM a s c m = some ((a * s + c) % m) := by
  obtain ⟨smallA, smallS, signs⟩ := factors
  have high := modulus.high
  rw [multModM]
  split
  · obtain ⟨v, isDecomposed, same, small⟩ := decomposed_eq modulus smallA smallS (abs_lt.mpr ⟨by omega, most⟩)
    simp only [isDecomposed, bind_eq_bind, bind_some, reduced_eq modulus small, same]
  · rename_i within
    have isTwo53 : two53 = 2 ^ 53 := rfl
    have exactProduct : |a * s| < 2 ^ 53 := by
      rw [abs_lt]
      refine ⟨?_, by omega⟩
      rcases signs with ⟨positive, positiveS⟩ | small
      · have := mul_nonneg positive positiveS
        omega
      · have := neg_abs_le (a * s)
        rw [abs_mul] at this
        nlinarith [abs_nonneg a, abs_nonneg s]
    have exactSum : |a * s + c| < 2 ^ 53 := abs_lt.mpr ⟨by omega, by omega⟩
    simp only [direct, exact_eq exactProduct, exact_eq exactSum, bind_eq_bind, bind_some, reduced_eq modulus exactSum]

/-- An entry of a product. -/
def rowModM (A : Matrix3) (s : Vector3) (m : Int) (i : Fin 3) : Option Int := do
  let x ← multModM (A i 0) (s 0) 0 m
  let x ← multModM (A i 1) (s 1) x m
  multModM (A i 2) (s 2) x m

def matVecModM (A : Matrix3) (s : Vector3) (m : Int) : Option Vector3 := do
  let x0 ← rowModM A s m 0
  let x1 ← rowModM A s m 1
  let x2 ← rowModM A s m 2
  some ![x0, x1, x2]

/-- Column by column. -/
def matMatModM (A B : Matrix3) (m : Int) : Option Matrix3 := do
  let w0 ← matVecModM A (fun j => B j 0) m
  let w1 ← matVecModM A (fun j => B j 1) m
  let w2 ← matVecModM A (fun j => B j 2) m
  some (Matrix.of fun j i => ![w0, w1, w2] i j)

def matTwoPowModM (src : Matrix3) (m : Int) : Nat -> Option Matrix3
  | 0 => some src
  | e + 1 => do
    let dst ← matTwoPowModM src m e
    matMatModM dst dst m

/-- The powers of both matrices to the powers of 2 from 1 to 190. -/
def powerOfTwoConstants : Option (List (Matrix3 × Matrix3)) :=
  (List.range 190).mapM fun i => do
    let power := i + 1
    let a1 ← matTwoPowModM A1p0 m1 power
    let a2 ← matTwoPowModM A2p0 m2 power
    some (a1, a2)

def powerOfTwoMatrix (n : Nat) : Option (Matrix3 × Matrix3) := do
  let constants ← powerOfTwoConstants
  constants[n - 1]?

/-- The same modulo `m`. -/
def Congruent (m : Int) (v w : Vector3) : Prop :=
  ∀ i, v i ≡ w i [ZMOD m]

/-- A vector of remainders. -/
def Remainders (m : Int) (v : Vector3) : Prop :=
  ∀ i, 0 ≤ v i ∧ v i < m

variable {A B : Matrix3} {s' : Vector3}

theorem Congruent.mulVec {v w : Vector3} (rows : ∀ i, Congruent m (A i) (B i)) (same : Congruent m v w) :
    Congruent m (A.mulVec v) (B.mulVec w) := by
  intro i
  simp only [Matrix.mulVec, dotProduct, Fin.sum_univ_three]
  exact (((rows i 0).mul (same 0)).add ((rows i 1).mul (same 1))).add ((rows i 2).mul (same 2))

theorem Remainders.abs_lt {v : Vector3} (remainders : Remainders m v) (i : Fin 3) : |v i| < m :=
  (abs_of_nonneg (remainders i).1).trans_lt (remainders i).2

theorem remainder_bounds (modulus : Modulus m) (v : Int) : 0 ≤ v % m ∧ v % m < m :=
  ⟨Int.emod_nonneg _ modulus.pos.ne', Int.emod_lt_of_pos _ modulus.pos⟩

theorem matVecModM_eq (modulus : Modulus m) (factors : ∀ i j, Factors (A i j) (s' j) m) :
    ∃ v, matVecModM A s' m = some v ∧ Remainders m v ∧ Congruent m v (A.mulVec s') := by
  have row : ∀ i, rowModM A s' m i = some ((A i 2 * s' 2 + (A i 1 * s' 1 + (A i 0 * s' 0 + 0) % m) % m) % m) := by
    intro i
    simp only [rowModM, bind_eq_bind, bind_some, multModM_eq modulus (factors i _) le_rfl modulus.pos,
      multModM_eq modulus (factors i _) (remainder_bounds modulus _).1 (remainder_bounds modulus _).2]
  refine ⟨fun i => (A i 2 * s' 2 + (A i 1 * s' 1 + (A i 0 * s' 0 + 0) % m) % m) % m, ?_,
    fun i => remainder_bounds modulus _, fun i => ?_⟩
  · simp only [matVecModM, row, bind_eq_bind, bind_some, some_inj]
    funext i
    fin_cases i <;> rfl
  · simp only [Int.ModEq, Int.emod_emod, Int.add_emod_emod, Matrix.mulVec, dotProduct, Fin.sum_univ_three]
    congr 1
    ring

theorem matMatModM_eq (modulus : Modulus m) (factors : ∀ i j k, Factors (A i j) (B j k) m) :
    ∃ C, matMatModM A B m = some C ∧ (∀ i, Remainders m (C i)) ∧ ∀ i, Congruent m (C i) ((A * B) i) := by
  choose column isColumn remainders product using fun k => matVecModM_eq modulus fun i j => factors i j k
  refine ⟨fun j i => column i j, ?_, fun i j => remainders j i, fun i k => product k i⟩
  simp only [matMatModM, isColumn, bind_eq_bind, bind_some]
  refine congrArg some (Matrix.ext fun j i => ?_)
  fin_cases i <;> rfl

theorem matTwoPowModM_eq (modulus : Modulus m) (small : ∀ i j, |A i j| < 2 ^ 21) (e : Nat) :
    ∃ P, matTwoPowModM A m e = some P ∧ (∀ i, Congruent m (P i) ((A ^ 2 ^ e) i)) ∧
      (∀ i j k, Factors (P i j) (P j k) m) ∧ (0 < e -> ∀ i, Remainders m (P i)) := by
  have low := modulus.low
  induction e with
  | zero =>
    have within : ∀ i j, |A i j| < m := fun i j => (small i j).trans (by omega)
    refine ⟨A, rfl, fun i j => ?_, fun i j k => ⟨within i j, within j k, .inr (small i j)⟩,
      fun none => absurd none (Nat.lt_irrefl 0)⟩
    rw [pow_zero, pow_one]
  | succ e ih =>
    obtain ⟨dst, isDst, power, factors, -⟩ := ih
    obtain ⟨next, isNext, remainders, product⟩ := matMatModM_eq modulus factors
    refine ⟨next, ?_, fun i k => (product i k).trans ?_, fun i j k => ⟨(remainders i).abs_lt j, (remainders j).abs_lt k,
      .inl ⟨(remainders i j).1, (remainders j k).1⟩⟩, fun _ => remainders⟩
    · simp only [matTwoPowModM, isDst, bind_eq_bind, bind_some, isNext]
    · rw [pow_succ, Nat.mul_two, pow_add]
      exact Congruent.mulVec power (fun j => power j k) i

theorem powerOfTwoMatrix_eq {n : Nat} (pos : 0 < n) (within : n ≤ 190) : ∃ P Q, powerOfTwoMatrix n = some (P, Q) ∧
    (∀ i, Congruent m1 (P i) ((A1p0 ^ 2 ^ n) i)) ∧ (∀ i, Congruent m2 (Q i) ((A2p0 ^ 2 ^ n) i)) ∧
    (∀ i, Remainders m1 (P i)) ∧ ∀ i, Remainders m2 (Q i) := by
  choose P isP powerP _ remaindersP using matTwoPowModM_eq (A := A1p0) modulus_m1 (by decide)
  choose Q isQ powerQ _ remaindersQ using matTwoPowModM_eq (A := A2p0) modulus_m2 (by decide)
  have constants : powerOfTwoConstants = some ((List.range 190).map fun i => (P (i + 1), Q (i + 1))) := by
    simp only [powerOfTwoConstants, isP, isQ, bind_eq_bind, bind_some]
    exact List.mapM_pure
  refine ⟨P n, Q n, ?_, powerP n, powerQ n, remaindersP n pos, remaindersQ n pos⟩
  rw [powerOfTwoMatrix, constants, bind_eq_bind, bind_some, List.getElem?_map, List.getElem?_range (by omega), map_some,
    Nat.sub_add_cancel pos]

variable {v w x : Vector3} {steps further : Nat}

/-- The second vector is that many steps of the recurrence behind the first one. -/
def Follows (m : Int) (A : Matrix3) (steps : Nat) (v w : Vector3) : Prop :=
  Remainders m w ∧ Congruent m w ((A ^ steps).mulVec v)

theorem Follows.refl (remainders : Remainders m v) : Follows m A 0 v v := by
  refine ⟨remainders, fun i => ?_⟩
  rw [pow_zero, Matrix.one_mulVec]

theorem Follows.trans (first : Follows m A steps v w) (second : Follows m A further w x) :
    Follows m A (steps + further) v x := by
  refine ⟨second.1, fun i => (second.2 i).trans ?_⟩
  rw [Nat.add_comm, pow_add, ← Matrix.mulVec_mulVec]
  exact Congruent.mulVec (fun _ _ => .rfl) first.2 i

theorem Follows.unique (first : Follows m A steps v w) (second : Follows m A steps v x) : w = x := by
  funext i
  have same := (first.2 i).trans (second.2 i).symm
  rwa [Int.ModEq, Int.emod_eq_of_lt (first.1 i).1 (first.1 i).2,
    Int.emod_eq_of_lt (second.1 i).1 (second.1 i).2] at same

theorem Follows.next (modulus : Modulus m) (remainders : Remainders m v) {p : Int}
    (recurrence : A.mulVec v = ![v 1, v 2, p]) : Follows m A 1 v ![v 1, v 2, p % m] := by
  rw [Follows, pow_one, recurrence]
  constructor
  · intro i
    fin_cases i
    · exact remainders 1
    · exact remainders 2
    · exact remainder_bounds modulus p
  · intro i
    fin_cases i
    · exact .rfl
    · exact .rfl
    · exact Int.mod_modEq p m

theorem Follows.jump {P : Matrix3} (modulus : Modulus m) (power : ∀ i, Congruent m (P i) ((A ^ steps) i))
    (inP : ∀ i, Remainders m (P i)) (inV : Remainders m v) : ∃ w, matVecModM P v m = some w ∧
    Follows m A steps v w := by
  obtain ⟨w, isProduct, remainders, product⟩ := @matVecModM_eq m P v modulus
    fun i j => ⟨(inP i).abs_lt j, inV.abs_lt j, .inl ⟨(inP i j).1, (inV j).1⟩⟩
  exact ⟨w, isProduct, remainders, fun i => (product i).trans (Congruent.mulVec power (fun _ => .rfl) i)⟩

end MRG32k3a

open MRG32k3a

/-- The state of a stream, three numbers of each component. -/
structure RngStream where
  component1 : Vector3
  component2 : Vector3

namespace RngStream

/-- `a * x - b * y` modulo `m`. -/
def nextModM (a x b y m : Int) : Option Int := do
  let first ← exact (a * x)
  let second ← exact (b * y)
  let p ← exact (first - second)
  reduced p m

def randU01 (stream : RngStream) : Option (Rat × RngStream) := do
  let p1 ← nextModM a12 (stream.component1 1) a13n (stream.component1 0) m1
  let p2 ← nextModM a21 (stream.component2 2) a23n (stream.component2 0) m2
  let u : Rat := if p2 < p1 then (p1 - p2) * norm else (p1 - p2 + m1) * norm
  some (u, {
    component1 := ![stream.component1 1, stream.component1 2, p1]
    component2 := ![stream.component2 1, stream.component2 2, p2] })

/-- One bit of the number that is jumped by. -/
def advanceBit (nth : UInt64) (byLog2 : Nat) (state : RngStream) (i : Nat) : Option RngStream :=
  let nbit := 63 - i
  if (nth >>> UInt64.ofNat nbit) &&& 0x1 ≠ 0 then do
    let matrices ← powerOfTwoMatrix (byLog2 + nbit)
    let component1 ← matVecModM matrices.1 state.component1 m1
    let component2 ← matVecModM matrices.2 state.component2 m2
    some { component1 := component1, component2 := component2 }
  else some state

def advanceNthBy (nth : UInt64) (byLog2 : Nat) (state : RngStream) : Option RngStream :=
  (List.range 64).foldlM (advanceBit nth byLog2) state

/-- The state that the seed gives. -/
def seeded (seedNumber : UInt32) : RngStream where
  component1 _ := seedNumber.toNat
  component2 _ := seedNumber.toNat

/-- The constructor. -/
def create (seedNumber : UInt32) (stream substream : UInt64) : Option RngStream :=
  if m1 ≤ seedNumber.toNat ∨ m2 ≤ seedNumber.toNat ∨ seedNumber = 0 then none
  else do
    let state ← advanceNthBy stream 127 (seeded seedNumber)
    advanceNthBy substream 76 state

/-- The state after some draws. -/
def afterDraws (state : RngStream) : Nat -> Option RngStream
  | 0 => some state
  | draws + 1 => do
    let state ← afterDraws state draws
    let out ← state.randU01
    some out.2

/-- The numbers of the components are remainders. -/
structure Admissible (state : RngStream) : Prop where
  component1 : ∀ i, 0 ≤ state.component1 i ∧ state.component1 i < m1
  component2 : ∀ i, 0 ≤ state.component2 i ∧ state.component2 i < m2

/-- Where a stream and its substream start in the sequence of states of a seed. -/
def position (stream substream : UInt64) : Nat :=
  stream.toNat * 2 ^ 127 + substream.toNat * 2 ^ 76

variable {state next other : RngStream} {steps further : Nat}

/-- A state is that many steps behind another one. -/
def Reaches (steps : Nat) (state next : RngStream) : Prop :=
  Follows m1 A1p0 steps state.component1 next.component1 ∧ Follows m2 A2p0 steps state.component2 next.component2

theorem Reaches.admissible (reaches : Reaches steps state next) : next.Admissible :=
  ⟨reaches.1.1, reaches.2.1⟩

theorem Reaches.refl (admissible : state.Admissible) : Reaches 0 state state :=
  ⟨.refl admissible.component1, .refl admissible.component2⟩

theorem Reaches.trans (first : Reaches steps state next) (second : Reaches further next other) :
    Reaches (steps + further) state other :=
  ⟨first.1.trans second.1, first.2.trans second.2⟩

theorem Reaches.unique (first : Reaches steps state next) (second : Reaches steps state other) : next = other := by
  cases next
  cases other
  rw [mk.injEq]
  exact ⟨first.1.unique second.1, first.2.unique second.2⟩

theorem nextModM_eq {m a x b y : Int} (modulus : Modulus m) (smallA : 0 ≤ a ∧ a < 2 ^ 21) (smallB : 0 ≤ b ∧ b < 2 ^ 21)
    (inX : 0 ≤ x ∧ x < m) (inY : 0 ≤ y ∧ y < m) : nextModM a x b y m = some ((a * x - b * y) % m) := by
  have high := modulus.high
  have first : 0 ≤ a * x ∧ a * x < 2 ^ 53 := ⟨mul_nonneg smallA.1 inX.1, by nlinarith⟩
  have second : 0 ≤ b * y ∧ b * y < 2 ^ 53 := ⟨mul_nonneg smallB.1 inY.1, by nlinarith⟩
  have difference : |a * x - b * y| < 2 ^ 53 := abs_lt.mpr ⟨by omega, by omega⟩
  simp only [nextModM, exact_eq (abs_lt.mpr ⟨by omega, first.2⟩), exact_eq (abs_lt.mpr ⟨by omega, second.2⟩),
    exact_eq difference, bind_eq_bind, bind_some, reduced_eq modulus difference]

section

variable (admissible : state.Admissible)
include admissible

theorem randU01_reaches : ∃ u next, state.randU01 = some (u, next) ∧ Reaches 1 state next := by
  obtain ⟨in1, in2⟩ := admissible
  refine ⟨_, _,
    by simp only
    [randU01, nextModM_eq modulus_m1 (a := a12) (b := a13n) (by decide) (by decide) (in1 1) (in1 0),
    nextModM_eq modulus_m2 (a := a21) (b := a23n) (by decide) (by decide) (in2 2) (in2 0),
      bind_eq_bind, bind_some]; rfl,
    .next modulus_m1 in1 ?_, .next modulus_m2 in2 ?_⟩
  · funext i
    fin_cases i <;> simp [A1p0, Matrix.mulVec, dotProduct, Fin.sum_univ_three, a12, a13n]
    ring
  · funext i
    fin_cases i <;> simp [A2p0, Matrix.mulVec, dotProduct, Fin.sum_univ_three, a21, a23n]
    ring

theorem afterDraws_reaches (draws : Nat) :
    ∃ next, state.afterDraws draws = some next ∧ Reaches draws state next := by
  induction draws with
  | zero => exact ⟨state, rfl, .refl admissible⟩
  | succ draws ih =>
    obtain ⟨next, isNext, reaches⟩ := ih
    obtain ⟨u, after, isAfter, step⟩ := randU01_reaches reaches.admissible
    exact ⟨after, by simp only [afterDraws, isNext, isAfter, bind_eq_bind, bind_some], reaches.trans step⟩

/-- A bit that is set is a jump by its power. -/
theorem advanceBit_reaches (nth : UInt64) {byLog2 i : Nat} (pos : 0 < byLog2)
    (within : byLog2 ≤ 127) (inside : i < 64) : ∃ next, advanceBit nth byLog2 state i = some next ∧
      Reaches (nth.toNat / 2 ^ (63 - i) % 2 * 2 ^ (byLog2 + (63 - i))) state next := by
  have isBit : ((nth >>> UInt64.ofNat (63 - i)) &&& 0x1).toNat = nth.toNat / 2 ^ (63 - i) % 2 := by
    rw [UInt64.toNat_and, UInt64.toNat_shiftRight, UInt64.toNat_ofNat', mod_eq_of_lt (by omega : 63 - i < 2 ^ 64),
      mod_eq_of_lt (by omega : 63 - i < 64), shiftRight_eq_div_pow]
    exact and_one_is_mod _
  simp only [advanceBit, ne_eq, ← UInt64.toNat_inj, isBit, UInt64.toNat_zero]
  rcases mod_two_eq_zero_or_one (nth.toNat / 2 ^ (63 - i)) with isClear | isSet
  · simp only [isClear, not_true, if_false, zero_mul]
    exact ⟨state, rfl, .refl admissible⟩
  · obtain ⟨P, Q, isPower, powerP, powerQ, inP, inQ⟩ :=
      powerOfTwoMatrix_eq (n := byLog2 + (63 - i)) (by omega) (by omega)
    obtain ⟨v, isV, followsV⟩ := Follows.jump modulus_m1 powerP inP admissible.component1
    obtain ⟨w, isW, followsW⟩ := Follows.jump modulus_m2 powerQ inQ admissible.component2
    simp only [isSet, Nat.one_ne_zero, not_false_eq_true, if_true, isPower, bind_eq_bind, bind_some,
      isV, isW, Nat.one_mul]
    exact ⟨_, rfl, followsV, followsW⟩

/-- The highest bits that are done say how far the state has come. -/
theorem advanceNthBy_reaches (nth : UInt64) {byLog2 : Nat} (pos : 0 < byLog2)
    (within : byLog2 ≤ 127) : ∃ next, advanceNthBy nth byLog2 state = some next ∧
      Reaches (nth.toNat * 2 ^ byLog2) state next := by
  have highest : ∀ i ≤ 64, ∃ next, (range i).foldlM (advanceBit nth byLog2) state = some next ∧
      Reaches (nth.toNat / 2 ^ (64 - i) * 2 ^ (byLog2 + (64 - i))) state next := by
    intro i
    induction i with
    | zero =>
      intro _
      rw [Nat.div_eq_of_lt nth.toNat_lt, Nat.zero_mul]
      exact ⟨state, rfl, .refl admissible⟩
    | succ i ih =>
      intro inside
      obtain ⟨between, isBetween, reaches⟩ := ih (by omega)
      obtain ⟨next, isNext, step⟩ := advanceBit_reaches reaches.admissible nth pos within inside
      refine ⟨next, ?_, ?_⟩
      · rw [range_succ, foldlM_append, isBetween, bind_eq_bind, bind_some, foldlM_cons, isNext]
        rfl
      · have halves : 2 ^ (64 - i) = 2 ^ (63 - i) * 2 := by
          rw [← pow_succ]
          congr 1
          omega
        have steps : nth.toNat / 2 ^ (64 - i) * 2 ^ (byLog2 + (64 - i)) +
            nth.toNat / 2 ^ (63 - i) % 2 * 2 ^ (byLog2 + (63 - i)) =
            nth.toNat / 2 ^ (64 - (i + 1)) * 2 ^ (byLog2 + (64 - (i + 1))) := by
          rw [show 64 - (i + 1) = 63 - i by omega, pow_add, pow_add, halves, ← Nat.div_div_eq_div_mul]
          have parts := Nat.div_add_mod (nth.toNat / 2 ^ (63 - i)) 2
          generalize nth.toNat / 2 ^ (63 - i) = high at parts ⊢
          calc high / 2 * (2 ^ byLog2 * (2 ^ (63 - i) * 2)) + high % 2 * (2 ^ byLog2 * 2 ^ (63 - i))
            _ = (2 * (high / 2) + high % 2) * (2 ^ byLog2 * 2 ^ (63 - i)) := by ring
            _ = high * (2 ^ byLog2 * 2 ^ (63 - i)) := by rw [parts]
        rw [← steps]
        exact reaches.trans step
  obtain ⟨next, isNext, reaches⟩ := highest 64 le_rfl
  rw [Nat.sub_self, pow_zero, Nat.div_one, Nat.add_zero] at reaches
  exact ⟨next, isNext, reaches⟩

end

/-- Jumps lead where drawing leads, and distinct streams and substreams start apart in the sequence
of the seed. -/
theorem jumps_exact :
    (∀ state : RngStream, state.Admissible -> ∀ nth : UInt64, ∀ byLog2 ∈ [76, 127], ∃ next,
      advanceNthBy nth byLog2 state = some next ∧ next.Admissible ∧
        state.afterDraws (nth.toNat * 2 ^ byLog2) = some next) ∧
    ∀ seedNumber : UInt32, 0 < seedNumber.toNat -> (seedNumber.toNat : Int) < m1 -> (seedNumber.toNat : Int) < m2 ->
      (∀ stream substream, ∃ start, create seedNumber stream substream = some start ∧ start.Admissible ∧
        (seeded seedNumber).afterDraws (position stream substream) = some start) ∧
      ∀ stream substream stream' substream' : UInt64, substream.toNat < 2 ^ 51 -> substream'.toNat < 2 ^ 51 ->
        (stream, substream) ≠ (stream', substream') -> position stream substream ≠ position stream' substream' ∧
          position stream substream ≡ position stream' substream' [MOD 2 ^ 76] := by
  refine ⟨fun state admissible nth byLog2 mem =>
    ?_, fun seedNumber pos below1 below2 => ⟨fun stream substream => ?_, ?_⟩⟩
  · have bounds : 0 < byLog2 ∧ byLog2 ≤ 127 := by
      simp only [mem_cons, not_mem_nil, or_false] at mem
      omega
    obtain ⟨next, isNext, reaches⟩ := advanceNthBy_reaches admissible nth bounds.1 bounds.2
    obtain ⟨other, isOther, drawn⟩ := afterDraws_reaches admissible (nth.toNat * 2 ^ byLog2)
    exact ⟨next, isNext, reaches.admissible, reaches.unique drawn ▸ isOther⟩
  · have admissible : (seeded seedNumber).Admissible :=
      ⟨fun _ => ⟨Int.natCast_nonneg _, below1⟩, fun _ => ⟨Int.natCast_nonneg _, below2⟩⟩
    obtain ⟨between, isBetween, first⟩ := @advanceNthBy_reaches _ admissible stream 127 (by decide) (by decide)
    obtain ⟨start, isStart, second⟩ :=
      @advanceNthBy_reaches _ first.admissible substream 76 (by decide) (by decide)
    have reaches := first.trans second
    obtain ⟨other, isOther, drawn⟩ := afterDraws_reaches admissible (position stream substream)
    refine ⟨start, ?_, reaches.admissible, reaches.unique drawn ▸ isOther⟩
    have nonzero : seedNumber ≠ 0 := by
      rintro rfl
      exact absurd pos (lt_irrefl 0)
    rw [create, if_neg (by simp only [nonzero, or_false]; omega), isBetween, bind_eq_bind, bind_some, isStart]
  · intro stream substream stream' substream' few few' distinct
    constructor
    · intro same
      apply distinct
      simp only [position] at same
      rw [Prod.mk.injEq, ← UInt64.toNat_inj, ← UInt64.toNat_inj]
      omega
    · simp only [position, Nat.ModEq]
      omega

theorem firstJump_exact : ∃ next, advanceNthBy 1 76 (seeded 1) = some next ∧ next.Admissible ∧
    (seeded 1).afterDraws ((1 : UInt64).toNat * 2 ^ 76) = some next :=
  jumps_exact.1 (seeded 1) ⟨by decide, by decide⟩ 1 76 (by decide)

end RngStream

end Ns3.Core
