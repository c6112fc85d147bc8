import Ns3.Core.Int64x64.Division

/-!
# The cairo implementation

`int64x64_t` on pairs of words, for compilers without 128-bit integers. The operations of
`cairo_uint128_t` are exact; `none` is an abort, a division by zero, or a sum or left shift
that does not fit. Wherever the native implementation succeeds, this one does, with the same
bits.
-/

namespace Ns3.Core.Cairo

open Option BitVec

/-- `cairo_uint128_t`. -/
structure Uint128 where
  lo : BitVec 64
  hi : BitVec 64
  deriving DecidableEq

namespace Uint128

def toNat (x : Uint128) : Nat :=
  x.hi.toNat * 2 ^ 64 + x.lo.toNat

def ofNat (n : Nat) : Uint128 :=
  ⟨BitVec.ofNat 64 n, BitVec.ofNat 64 (n / 2 ^ 64)⟩

/-- `_cairo_uint64_to_uint128`. -/
def ofWord (i : BitVec 64) : Uint128 :=
  ⟨i, 0#64⟩

/-- The words of a native integer. -/
def ofBits (w : BitVec 128) : Uint128 :=
  ofNat w.toNat

/-- `_cairo_uint128_add`. -/
def add (a b : Uint128) : Option Uint128 :=
  if a.toNat + b.toNat < 2 ^ 128 then some (ofNat (a.toNat + b.toNat)) else none

/-- `_cairo_uint64x64_128_mul`. -/
def mul64 (a b : BitVec 64) : Uint128 :=
  ofNat (a.toNat * b.toNat)

/-- `_cairo_uint128_lsl`. -/
def lsl (a : Uint128) (shift : Nat) : Option Uint128 :=
  if a.toNat * 2 ^ shift < 2 ^ 128 then some (ofNat (a.toNat * 2 ^ shift)) else none

/-- `_cairo_uint128_rsl`. -/
def rsl (a : Uint128) (shift : Nat) : Uint128 :=
  ofNat (a.toNat / 2 ^ shift)

/-- `_cairo_uint128_divrem`. -/
def divrem (num den : Uint128) : Option (Uint128 × Uint128) :=
  if den.toNat = 0 then none
  else some (ofNat (num.toNat / den.toNat), ofNat (num.toNat % den.toNat))

/-- `_cairo_uint128_negate`. -/
def negate (a : Uint128) : Uint128 :=
  ofNat (2 ^ 128 - a.toNat)

/-- `_cairo_int128_negative`. -/
def negative (a : Uint128) : Bool :=
  a.hi.msb

end Uint128

open Uint128

/-- The magnitude of an operand, for `output_sign`. -/
def magnitude (x : Uint128) : Uint128 :=
  if x.negative then x.negate else x

/-- `Umul`. -/
def umul (a b : Uint128) : Option Uint128 := do
  let loPart := mul64 a.lo b.lo
  let midPart ← add (mul64 a.lo b.hi) (mul64 a.hi b.lo)
  let hiPart := mul64 a.hi b.hi
  if hiPart.hi ≠ 0#64 then none
  else
    let result ← add (ofWord loPart.hi) (ofWord midPart.lo)
    let res1 ← add (ofWord midPart.hi) (ofWord hiPart.lo)
    let res1 ← lsl res1 64
    add result res1

/-- `Mul`. -/
def mul (x o : Uint128) : Option Uint128 :=
  (umul (magnitude x) (magnitude o)).map fun result =>
    if x.negative != o.negative then result.negate else result

def skipZeros : Nat -> Nat -> Uint128 -> Nat × Uint128
  | 0, shift, den => (shift, den)
  | more + 1, shift, den =>
    if den.lo &&& 1#64 = 0#64 then skipZeros more (shift + 1) (rsl den 1) else (shift, den)

def skipLeading : Nat -> Nat -> Uint128 -> Option (Nat × Uint128)
  | 0, shift, rem => some (shift, rem)
  | more + 1, shift, rem =>
    if rem.hi &&& (1#64 <<< 63) = 0#64 then
      (lsl rem 1).bind fun rem => skipLeading more (shift + 1) rem
    else some (shift, rem)

def castOff (rem : Uint128) : Nat -> Nat -> Uint128 -> Nat × Uint128
  | 0, shift, den => (shift, den)
  | more + 1, shift, den =>
    if den.lo &&& 1#64 = 0#64 ∨ rem.toNat < den.toNat then
      castOff rem more (shift + 1) (rsl den 1)
    else (shift, den)

/-- The rounds of `Udiv`, with a bound on their number. -/
def fractionDigits : Nat -> Nat -> Nat -> Uint128 -> Uint128 -> Uint128 -> Option (Nat × Uint128)
  | 0, digis, _, rem, _, result => if digis < 64 ∧ rem.toNat ≠ 0 then none else some (digis, result)
  | fuel + 1, digis, shift, rem, den, result =>
    if digis < 64 ∧ rem.toNat ≠ 0 then do
      let (shift, rem) ← skipLeading (64 - (digis + shift)) shift rem
      let (shift, den) := castOff rem (64 - (digis + shift)) shift den
      let (quo, rem) ← divrem rem den
      let result ← lsl result shift
      let result ← add result quo
      fractionDigits fuel (digis + shift) 0 rem den result
    else some (digis, result)

/-- `Udiv`. -/
def udiv (a b : Uint128) : Option Uint128 := do
  let (result, rem) ← divrem a b
  let (shift, den) := skipZeros 64 0 b
  let (digis, result) ← fractionDigits 129 0 shift rem den result
  if digis < 64 then lsl result (64 - digis) else some result

/-- `Div`. -/
def div (x o : Uint128) : Option Uint128 :=
  (udiv (magnitude x) (magnitude o)).map fun result =>
    if x.negative != o.negative then result.negate else result

/-- `UmulByInvert`. -/
def umulByInvert (a b : Uint128) : Option Uint128 := do
  let hi := mul64 a.hi b.hi
  let mid ← add (mul64 a.hi b.lo) (mul64 a.lo b.hi)
  add hi ⟨mid.hi, 0#64⟩

/-- `MulByInvert`. -/
def mulByInvert (x o : Uint128) : Option Uint128 :=
  (umulByInvert (magnitude x) o).map fun result =>
    if x.negative then result.negate else result

/-- `Invert`. -/
def invert (v : UInt64) : Option Uint128 :=
  if 1 < v then do
    let result ← udiv ⟨0#64, 1#64⟩ ⟨v.toBitVec, 0#64⟩
    let tmp ← mulByInvert ⟨0#64, v.toBitVec⟩ result
    if tmp.hi ≠ 1#64 then add result ⟨1#64, 0#64⟩ else some result
  else none

@[simp] theorem toNat_ofNat {n : Nat} (fits : n < 2 ^ 128) : (ofNat n).toNat = n := by
  rw [ofNat, Uint128.toNat, BitVec.toNat_ofNat, BitVec.toNat_ofNat]
  omega

theorem hi_ofNat {n : Nat} (fits : n < 2 ^ 128) : (ofNat n).hi.toNat = n / 2 ^ 64 := by
  rw [ofNat, BitVec.toNat_ofNat]
  omega

theorem lo_ofNat (n : Nat) : (ofNat n).lo.toNat = n % 2 ^ 64 :=
  BitVec.toNat_ofNat n 64

variable (w : BitVec 128)

@[simp] theorem toNat_ofBits : (ofBits w).toNat = w.toNat :=
  toNat_ofNat w.isLt

@[simp] theorem toNat_ofWord (i : BitVec 64) : (ofWord i).toNat = i.toNat := by
  simp [Uint128.toNat, ofWord]

theorem ofNat_toNat (x : Uint128) : ofNat x.toNat = x := by
  obtain ⟨lo, hi⟩ := x
  have loFits := lo.isLt
  have hiFits := hi.isLt
  simp only [ofNat, Uint128.toNat, Uint128.mk.injEq, ← BitVec.toNat_inj, BitVec.toNat_ofNat]
  omega

theorem eq_ofBits {x : Uint128} {w : BitVec 128} (same : x.toNat = w.toNat) : x = ofBits w := by
  rw [ofBits, ← same, ofNat_toNat]

theorem ofWord_eq (i : BitVec 64) : ofWord i = ofNat i.toNat := by
  rw [← ofNat_toNat (ofWord i), toNat_ofWord]

theorem add_ofNat {m n : Nat} (fits : m + n < 2 ^ 128) : add (ofNat m) (ofNat n) = some (ofNat (m + n)) := by
  rw [add, toNat_ofNat (by omega), toNat_ofNat (by omega), if_pos fits]

theorem lsl_ofNat {n shift : Nat} (fits : n * 2 ^ shift < 2 ^ 128) :
    lsl (ofNat n) shift = some (ofNat (n * 2 ^ shift)) := by
  have := Nat.le_mul_of_pos_right n (Nat.two_pow_pos shift)
  rw [lsl, toNat_ofNat (by omega), if_pos fits]

theorem negate_ofBits : (ofBits w).negate = ofBits (-w) := by
  rw [negate, toNat_ofBits, ofBits, toNat_neg]
  rcases Nat.eq_zero_or_pos w.toNat with zero | pos
  · rw [zero]
    rfl
  · rw [Nat.mod_eq_of_lt (by omega)]

theorem negative_ofBits : (ofBits w).negative = w.msb := by
  have high := hi_ofNat w.isLt
  rw [negative, ofBits, msb_eq_decide, msb_eq_decide, high]
  apply decide_eq_decide.mpr
  omega

theorem magnitude_ofBits (x : Int64x64) : magnitude (ofBits x.v) = ofBits x.magnitude := by
  rw [magnitude, negative_ofBits, negate_ofBits, Int64x64.magnitude, Int64x64.isNegative, apply_ite ofBits]

theorem magnitude_le (x : Int64x64) : x.magnitude.toNat ≤ 2 ^ 127 := by
  rw [Int64x64.magnitude, Int64x64.isNegative, msb_eq_decide]
  split
  · next negative =>
      rw [toNat_neg]
      have := of_decide_eq_true negative
      omega
  · next nonneg =>
      have := of_decide_eq_false (Bool.eq_false_of_not_eq_true nonneg)
      omega

theorem signed_ofBits (sign : Bool) (result : BitVec 128) : (if sign then (ofBits result).negate else ofBits result) =
    ofBits (if sign then -result else result) := by
  rw [negate_ofBits, apply_ite ofBits]

/-- The products of the words fit, and so do their sums when the product does. -/
theorem umul_agrees {a b result : BitVec 128} (aFits : a.toNat ≤ 2 ^ 127)
    (bFits : b.toNat ≤ 2 ^ 127) (computes : Int64x64.umul a b = some result) :
    umul (ofBits a) (ofBits b) = some (ofBits result) := by
  have value := (Int64x64.umul_spec aFits bFits).1 result computes
  have words := Int64x64.mul_div_words a.toNat b.toNat
  have resultFits := result.isLt
  have ah : a.toNat / 2 ^ 64 ≤ 2 ^ 63 := by omega
  have bh : b.toNat / 2 ^ 64 ≤ 2 ^ 63 := by omega
  have al : a.toNat % 2 ^ 64 ≤ 2 ^ 64 - 1 := by omega
  have bl : b.toNat % 2 ^ 64 ≤ 2 ^ 64 - 1 := by omega
  have low := Nat.mul_le_mul al bl
  have midA := Nat.mul_le_mul ah bl
  have midB := Nat.mul_le_mul al bh
  simp only [umul, mul64, ofBits, lo_ofNat, hi_ofNat a.isLt, hi_ofNat b.isLt]
  generalize a.toNat % 2 ^ 64 * (b.toNat % 2 ^ 64) = loPart at words low ⊢
  generalize a.toNat / 2 ^ 64 * (b.toNat % 2 ^ 64) = midRight at words midA ⊢
  generalize a.toNat % 2 ^ 64 * (b.toNat / 2 ^ 64) = midLeft at words midB ⊢
  generalize a.toNat / 2 ^ 64 * (b.toNat / 2 ^ 64) = hiPart at words ⊢
  have noAbort : (ofNat hiPart).hi = 0#64 := by
    rw [← toNat_inj, hi_ofNat (by omega)]
    exact Nat.div_eq_of_lt (by omega)
  simp only [bind_eq_bind, ofWord_eq]
  rw [add_ofNat (by omega), bind_some, if_neg (not_not.mpr noAbort), hi_ofNat (by omega),
    hi_ofNat (by omega), lo_ofNat, lo_ofNat, add_ofNat (by omega), bind_some,
    add_ofNat (by omega), bind_some, lsl_ofNat (by omega), bind_some,
    add_ofNat (by omega), value, words]
  congr 2
  omega

variable {result x o : Int64x64}

theorem mul_agrees (computes : x.mul o = some result) : mul (ofBits x.v) (ofBits o.v) = some (ofBits result.v) := by
  obtain ⟨product, multiplied, signed⟩ := bind_eq_some_iff.mp computes
  rw [mul, magnitude_ofBits, magnitude_ofBits,
    umul_agrees (magnitude_le x) (magnitude_le o) multiplied, negative_ofBits, negative_ofBits,
    map_some, signed_ofBits]
  change (if x.v.msb != o.v.msb then _ else _) = some result at signed
  split at signed <;> obtain ⟨-, same⟩ := ite_none_right_eq_some.mp signed <;>
    cases same
  · next opposite => rw [if_pos opposite]
  · next alike => rw [if_neg alike]

theorem umulByInvert_agrees {a b result : BitVec 128} (aFits : a.toNat ≤ 2 ^ 127)
    (computes : Int64x64.umulByInvert a b = some result) :
    umulByInvert (ofBits a) (ofBits b) = some (ofBits result) := by
  obtain ⟨bFits, same⟩ := ite_none_right_eq_some.mp computes
  have limit : Int64x64.maskHiBit.toNat = 2 ^ 127 := rfl
  rw [le_def, limit] at bFits
  cases same
  have ah : a.toNat / 2 ^ 64 ≤ 2 ^ 63 := by omega
  have bh : b.toNat / 2 ^ 64 ≤ 2 ^ 63 := by omega
  have al : a.toNat % 2 ^ 64 ≤ 2 ^ 64 - 1 := by omega
  have bl : b.toNat % 2 ^ 64 ≤ 2 ^ 64 - 1 := by omega
  have high := Nat.mul_le_mul ah bh
  have midA := Nat.mul_le_mul ah bl
  have midB := Nat.mul_le_mul al bh
  simp only [umulByInvert, mul64, ofBits, lo_ofNat, hi_ofNat a.isLt, hi_ofNat b.isLt,
    toNat_add, toNat_mul, Int64x64.toNat_high, Int64x64.toNat_maskLo]
  generalize a.toNat / 2 ^ 64 * (b.toNat % 2 ^ 64) = midRight at midA ⊢
  generalize a.toNat % 2 ^ 64 * (b.toNat / 2 ^ 64) = midLeft at midB ⊢
  generalize a.toNat / 2 ^ 64 * (b.toNat / 2 ^ 64) = hiPart at high ⊢
  have word (i : BitVec 64) : (⟨i, 0#64⟩ : Uint128) = ofNat i.toNat := ofWord_eq i
  simp only [bind_eq_bind]
  rw [add_ofNat (by omega), bind_some, word, hi_ofNat (by omega), add_ofNat (by omega)]
  congr 2
  omega

theorem mulByInvert_agrees (computes : x.mulByInvert o = some result) :
    mulByInvert (ofBits x.v) (ofBits o.v) = some (ofBits result.v) := by
  obtain ⟨product, multiplied, signed⟩ := map_eq_some_iff.mp computes
  rw [mulByInvert, magnitude_ofBits, umulByInvert_agrees (magnitude_le x) multiplied,
    negative_ofBits, map_some, signed_ofBits, ← signed, Int64x64.isNegative]
  split <;> rfl

/-- A loop counter beside the words of a native integer. -/
def counted (counter : Nat × BitVec 128) : Nat × Uint128 :=
  (counter.1, ofBits counter.2)

theorem counted_mk (counter : Nat) (w : BitVec 128) : counted (counter, w) = (counter, ofBits w) :=
  rfl

theorem rsl_ofBits (shift : Nat) : rsl (ofBits w) shift = ofBits (w >>> shift) := by
  rw [rsl, toNat_ofBits, ofBits, Int64x64.toNat_shiftRight]

theorem lsl_ofBits (shift : Nat) :
    lsl (ofBits w) shift = (Int64x64.Exact.shiftLeft w shift).map ofBits := by
  rw [lsl, toNat_ofBits, Int64x64.Exact.shiftLeft]
  split
  · next fits => rw [map_some, ofBits, Int64x64.shiftLeft_toNat fits]
  · rfl

theorem add_ofBits (a b : BitVec 128) : add (ofBits a) (ofBits b) = (Int64x64.Exact.add a b).map ofBits := by
  rw [add, toNat_ofBits, toNat_ofBits, Int64x64.Exact.add]
  split
  · next fits => rw [map_some, ofBits, toNat_add, Nat.mod_eq_of_lt fits]
  · rfl

theorem divrem_ofBits (num : BitVec 128) {den : BitVec 128} (nonzero : den ≠ 0#128) :
    divrem (ofBits num) (ofBits den) = some (ofBits (num / den), ofBits (num % den)) := by
  have pos : den.toNat ≠ 0 := fun zero => nonzero (eq_of_toNat_eq zero)
  rw [divrem, toNat_ofBits, toNat_ofBits, if_neg pos, ofBits, ofBits, toNat_udiv, toNat_umod]

theorem even_ofBits : (ofBits w).lo &&& 1#64 = 0#64 ↔ w &&& 1#128 = 0#128 := by
  have bit : (ofBits w).lo &&& 1#64 = 0#64 ↔ (ofBits w).lo.toNat % 2 = 0 := by
    rw [← toNat_inj, toNat_and]
    exact iff_of_eq (congrArg (· = 0) (Nat.and_one_is_mod _))
  rw [bit, Int64x64.even_iff, ofBits, lo_ofNat]
  omega

theorem clear_ofBits :
    (ofBits w).hi &&& (1#64 <<< 63) = 0#64 ↔ w &&& Int64x64.maskHiBit = 0#128 := by
  have native : w &&& Int64x64.maskHiBit = 0#128 ↔ w.toNat < 2 ^ 127 :=
    ⟨Int64x64.lt_of_maskHiBit, Int64x64.maskHiBit_eq_zero⟩
  have word (i : BitVec 64) : i &&& (1#64 <<< 63) = 0#64 ↔ i.toNat < 2 ^ 63 := by
    constructor
    · intro clear
      have bit : i.msb = false := by
        rw [msb_eq_getLsbD_last]
        have same := congrArg (fun word : BitVec 64 => word.getLsbD 63) clear
        simpa using same
      exact toNat_lt_of_msb_false bit
    · intro low
      rw [← toNat_inj, toNat_and]
      change i.toNat &&& 2 ^ 63 = 0
      rw [Nat.and_two_pow, Nat.testBit_lt_two_pow low]
      rfl
  rw [native, word, ofBits, hi_ofNat w.isLt]
  omega

theorem skipZeros_ofBits (more shift : Nat) (den : BitVec 128) :
    skipZeros more shift (ofBits den) = counted (Int64x64.skipZeros more shift den) := by
  induction more generalizing shift den with
  | zero => rfl
  | succ more ih =>
    rw [skipZeros, Int64x64.skipZeros, rsl_ofBits, apply_ite counted]
    exact if_congr (even_ofBits den) (ih _ _) rfl

theorem skipLeading_ofBits (more shift : Nat) (rem : BitVec 128) : skipLeading more shift (ofBits rem) =
    (Int64x64.Exact.skipLeading more shift rem).map counted := by
  induction more generalizing shift rem with
  | zero => rfl
  | succ more ih =>
    rw [skipLeading, Int64x64.Exact.skipLeading, lsl_ofBits, apply_ite (Option.map counted)]
    refine if_congr (clear_ofBits rem) ?_ rfl
    cases Int64x64.Exact.shiftLeft rem 1 with
    | none => rfl
    | some moved => exact ih (shift + 1) moved

theorem castOff_ofBits (rem : BitVec 128) (more shift : Nat) (den : BitVec 128) {counter : Nat × BitVec 128}
    (computes : Int64x64.Exact.castOff rem more shift den = some counter) :
    castOff (ofBits rem) more shift (ofBits den) = counted counter := by
  induction more generalizing shift den with
  | zero =>
    cases computes
    rfl
  | succ more ih =>
    rw [Int64x64.Exact.castOff] at computes
    have same : ((ofBits den).lo &&& 1#64 = 0#64 ∨ (ofBits rem).toNat < (ofBits den).toNat) ↔
        (den &&& 1#128 = 0#128 ∨ rem < den) := by
      rw [even_ofBits, toNat_ofBits, toNat_ofBits, lt_def]
    rw [castOff, rsl_ofBits]
    split at computes
    · next casts =>
        obtain ⟨moved, kept, rest⟩ := bind_eq_some_iff.mp computes
        obtain ⟨-, halved⟩ := ite_none_right_eq_some.mp kept
        cases halved
        rw [if_pos (same.mpr casts)]
        exact ih (shift + 1) (den >>> 1) rest
    · next stops =>
        cases computes
        rw [if_neg fun casts => stops (same.mp casts)]
        rfl

theorem fractionDigits_agrees (fuel digis shift : Nat) (rem den result : BitVec 128) {counter : Nat × BitVec 128}
    (computes : Int64x64.Exact.fractionDigits fuel digis shift rem den result = some counter) :
    fractionDigits fuel digis shift (ofBits rem) (ofBits den) (ofBits result) = some (counted counter) := by
  induction fuel generalizing digis shift rem den result with
  | zero =>
    rw [Int64x64.Exact.fractionDigits] at computes
    obtain ⟨stops, same⟩ := ite_none_left_eq_some.mp computes
    cases same
    rw [fractionDigits, toNat_ofBits, if_neg fun more =>
      stops ⟨more.1, fun zero => more.2 (by rw [zero]; rfl)⟩]
    rfl
  | succ fuel ih =>
    rw [Int64x64.Exact.fractionDigits] at computes
    have same : (digis < 64 ∧ (ofBits rem).toNat ≠ 0) ↔ (digis < 64 ∧ rem ≠ 0#128) := by
      rw [toNat_ofBits, Ne, Ne, ← toNat_inj]
      rfl
    rw [fractionDigits]
    split at computes
    · next continues =>
        obtain ⟨⟨skipped, moved⟩, leading, afterLeading⟩ := bind_eq_some_iff.mp computes
        obtain ⟨⟨cast, odd⟩, trailing, afterTrailing⟩ :=
          bind_eq_some_iff.mp afterLeading
        obtain ⟨nonzero, divided⟩ := ite_none_left_eq_some.mp afterTrailing
        obtain ⟨raised, shifted, afterShift⟩ := bind_eq_some_iff.mp divided
        obtain ⟨total, added, rest⟩ := bind_eq_some_iff.mp afterShift
        simp only [if_pos (same.mpr continues), bind_eq_bind]
        rw [skipLeading_ofBits, leading, map_some, bind_some, counted_mk]
        dsimp only
        rw [castOff_ofBits _ _ _ _ trailing, counted_mk]
        dsimp only
        rw [divrem_ofBits moved nonzero, bind_some, lsl_ofBits, shifted, map_some,
          bind_some, add_ofBits, added, map_some, bind_some]
        exact ih _ _ _ _ _ rest
    · next stops =>
        cases computes
        rw [if_neg fun more => stops (same.mp more)]
        rfl

theorem udiv_agrees {a b result : BitVec 128} (computes : Int64x64.Exact.udiv a b = some result) :
    udiv (ofBits a) (ofBits b) = some (ofBits result) := by
  obtain ⟨nonzero, divided⟩ := ite_none_left_eq_some.mp computes
  obtain ⟨⟨shift, den⟩, skipped, afterSkip⟩ := bind_eq_some_iff.mp divided
  obtain ⟨⟨digis, quotient⟩, rounds, finished⟩ := bind_eq_some_iff.mp afterSkip
  rw [Int64x64.Exact.skipZeros_eq] at skipped
  have zeros := skipZeros_ofBits 64 0 b
  rw [some.inj skipped] at zeros
  simp only [udiv, bind_eq_bind]
  rw [divrem_ofBits a nonzero, bind_some, zeros, counted_mk]
  dsimp only
  rw [fractionDigits_agrees _ _ _ _ _ _ rounds, bind_some, counted_mk]
  dsimp only at finished ⊢
  split at finished
  · next short => rw [if_pos short, lsl_ofBits, finished, map_some]
  · next full => rw [if_neg full, some.inj finished]

theorem div_agrees (fits : x.magnitude.toNat * 2 ^ 64 / o.magnitude.toNat < 2 ^ 128)
    (computes : x.div o = some result) : div (ofBits x.v) (ofBits o.v) = some (ofBits result.v) := by
  obtain ⟨quotient, divided, signed⟩ := map_eq_some_iff.mp computes
  obtain ⟨nonzero, -⟩ := ite_none_left_eq_some.mp divided
  have pos : 0 < o.magnitude.toNat :=
    Nat.pos_of_ne_zero fun zero => nonzero (eq_of_toNat_eq zero)
  obtain ⟨native, computed, exact, -⟩ := Int64x64.udiv_spec (magnitude_le o) pos fits
  rw [divided] at computed
  cases computed
  rw [div, magnitude_ofBits, magnitude_ofBits, udiv_agrees exact, negative_ofBits,
    negative_ofBits, map_some, signed_ofBits, ← signed, Int64x64.isNegative,
    Int64x64.isNegative]
  split <;> rfl

theorem high_eq_one : (ofBits x.v).hi ≠ 1#64 ↔ ¬ x.getHigh = 1 := by
  have word : (ofBits x.v).hi = (x.v.sshiftRight 64).setWidth 64 := by
    rw [← toNat_inj, ofBits, hi_ofNat x.v.isLt]
    have same : (x.v.sshiftRight 64).setWidth 64 = (x.v >>> 64).setWidth 64 := by
      ext i low
      simp only [getElem_setWidth, getLsbD_sshiftRight, getLsbD_ushiftRight]
      simp [show 64 + i < 128 by omega, show ¬ 128 ≤ i by omega]
    rw [same, toNat_setWidth, Int64x64.toNat_high]
    have := x.v.isLt
    omega
  have one : x.getHigh = 1 ↔ (x.v.sshiftRight 64).setWidth 64 = 1#64 := by
    rw [Int64x64.getHigh, ← Int64.toBitVec_inj, Int64.toBitVec_ofBitVec]
    rfl
  rw [word, one]

theorem invert_agrees {v : UInt64} (computes : Int64x64.invert v = some result) :
    invert v = some (ofBits result.v) := by
  obtain ⟨more, inverted⟩ := ite_none_right_eq_some.mp computes
  obtain ⟨quotient, divided, corrected⟩ := bind_eq_some_iff.mp inverted
  obtain ⟨tmp, multiplied, rounded⟩ := map_eq_some_iff.mp corrected
  have two : 1 < v.toNat := UInt64.lt_iff_toNat_lt.mp more
  have vFits := v.toNat_lt
  have divisor := Int64x64.toNat_ofNat_of_fits (n := v.toNat) (by omega)
  have one : (1#128 <<< 64).toNat = 2 ^ 64 := rfl
  have small : (1#128 <<< 64).toNat * 2 ^ 64 / v.toNat ≤ 2 ^ 127 := by
    rw [one]
    exact Nat.div_le_of_le_mul (by omega)
  obtain ⟨native, computed, exact, value⟩ := Int64x64.udiv_spec (a := 1#128 <<< 64)
    (b := BitVec.ofNat 128 v.toNat) (by omega) (by omega) (by rw [divisor]; omega)
  rw [divided] at computed
  cases computed
  rw [divisor] at value
  have dividend : (⟨0#64, 1#64⟩ : Uint128) = ofBits (1#128 <<< 64) := rfl
  have divisorWords : (⟨v.toBitVec, 0#64⟩ : Uint128) = ofBits (BitVec.ofNat 128 v.toNat) := by
    apply eq_ofBits
    rw [divisor]
    exact toNat_ofWord v.toBitVec
  have integer : (⟨0#64, v.toBitVec⟩ : Uint128) = ofBits (Int64x64.ofWords v.toInt64 0).v := by
    apply eq_ofBits
    have shifted : (Int64x64.ofWords v.toInt64 0).v = BitVec.ofInt 128 v.toInt64.toInt <<< 64 :=
      BitVec.or_zero
    rw [shifted, BitVec.toNat_shiftLeft, Nat.shiftLeft_eq, BitVec.toNat_ofInt]
    have words : v.toInt64.toInt = v.toNat ∨ v.toInt64.toInt = v.toNat - 2 ^ 64 := by
      rw [← Int64.toInt_toBitVec, UInt64.toBitVec_toInt64, BitVec.toInt_eq_toNat_cond, UInt64.toNat_toBitVec]
      split
      · exact .inl rfl
      · exact .inr rfl
    simp only [Uint128.toNat, UInt64.toNat_toBitVec, BitVec.toNat_ofNat]
    omega
  simp only [invert, if_pos more, bind_eq_bind]
  rw [dividend, divisorWords, udiv_agrees exact, bind_some, integer, mulByInvert_agrees multiplied, bind_some]
  split at rounded
  · next whole => rw [if_neg fun differs => high_eq_one.mp differs whole, ← rounded]
  · next part =>
      have unit : (⟨1#64, 0#64⟩ : Uint128) = ofBits 1#128 := rfl
      rw [if_pos (high_eq_one.mpr part), unit, add_ofBits, Int64x64.Exact.add, if_pos, ← rounded]
      · rfl
      · rw [value]
        exact Nat.lt_of_le_of_lt (Nat.add_le_add_right small 1) (by decide)

/-- Wherever the native implementation succeeds and its quotient fits, the cairo implementation
neither aborts nor overflows, and gives the same bits. -/
theorem agrees_with_native (x o : Int64x64) (v : UInt64) : (∀ result, x.mul o = some result ->
      mul (ofBits x.v) (ofBits o.v) = some (ofBits result.v)) ∧
    (∀ result, x.div o = some result -> x.magnitude.toNat * 2 ^ 64 / o.magnitude.toNat < 2 ^ 128 ->
      div (ofBits x.v) (ofBits o.v) = some (ofBits result.v)) ∧
    (∀ result, Int64x64.invert v = some result -> invert v = some (ofBits result.v)) ∧
    (∀ result, x.mulByInvert o = some result -> mulByInvert (ofBits x.v) (ofBits o.v) = some (ofBits result.v)) :=
  ⟨fun _ computes => mul_agrees computes, fun _ computes fits => div_agrees fits computes,
    fun _ computes => invert_agrees computes, fun _ computes => mulByInvert_agrees computes⟩

/-- Operands of both signs. -/
theorem agrees_with_native_signs : mul (ofBits (Int64x64.ofInt (-2)).v) (ofBits (Int64x64.ofInt 3).v) =
      some (ofBits (Int64x64.ofInt (-6)).v) ∧
    div (ofBits (Int64x64.ofInt (-6)).v) (ofBits (Int64x64.ofInt 3).v) = some (ofBits (Int64x64.ofInt (-2)).v) :=
  ⟨(agrees_with_native (Int64x64.ofInt (-2)) (Int64x64.ofInt 3) 3).1 _ (by decide +kernel),
    (agrees_with_native (Int64x64.ofInt (-6)) (Int64x64.ofInt 3) 3).2.1 _ (by decide +kernel) (by decide +kernel)⟩

end Ns3.Core.Cairo
