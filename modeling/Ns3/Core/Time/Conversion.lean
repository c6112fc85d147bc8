import Ns3.Core.Time.Resolution

/-!
# Conversions are exact

The factors of `SetResolution` are the ratios of the units. Conversions from a coarser
unit multiply; conversions to it multiply by a rounded reciprocal, which is exact for
whole numbers of the unit and rounds the others to the nearest.
-/

namespace Ns3.Core

open Ns3.Semantics List Option Nat

/-- The length of a unit; a year has 365 days. -/
def TimeUnit.femtoseconds : TimeUnit -> Nat
  | Y => 365 * 24 * 60 * 60 * 10 ^ 15
  | D => 24 * 60 * 60 * 10 ^ 15
  | H => 60 * 60 * 10 ^ 15
  | MIN => 60 * 10 ^ 15
  | S => 10 ^ 15
  | MS => 10 ^ 12
  | US => 10 ^ 9
  | NS => 10 ^ 6
  | PS => 10 ^ 3
  | FS => 1

theorem TimeUnit.mem_all (unit : TimeUnit) : unit ∈ TimeUnit.all := by
  cases unit <;> decide

namespace Resolution

variable (unit i : TimeUnit)

/-- The product of the power of ten and the quotient is the ratio of the units. -/
def Proportionate (quotient : Nat) : Prop :=
  (shift unit i = 0 ∧ quotient = 1 ↔ unit = i) ∧ 10 ^ (shift unit i).natAbs * quotient ≠ 2 ^ 63 ∧
    (realFactorAboveOne unit i = true ↔ unit.femtoseconds < i.femtoseconds) ∧
    (realFactorBelowOne unit i = true ↔ i.femtoseconds < unit.femtoseconds) ∧
    (unit.femtoseconds ≤ i.femtoseconds -> i.femtoseconds =
      10 ^ (shift unit i).natAbs * quotient * unit.femtoseconds) ∧
    (i.femtoseconds ≤ unit.femtoseconds -> unit.femtoseconds = 10 ^ (shift unit i).natAbs * quotient * i.femtoseconds)

instance (unit i : TimeUnit) (quotient : Nat) : Decidable (Proportionate unit i quotient) :=
  inferInstanceAs (Decidable (_ ∧ _))

theorem exists_proportionate :
    ∃ exact, quotient unit i = some exact ∧ Proportionate unit i exact := by
  have table : ∀ unit ∈ TimeUnit.all, ∀ i ∈ TimeUnit.all, ∃ exact ∈ quotient unit i, Proportionate unit i exact := by
    decide +kernel
  exact table unit unit.mem_all i i.mem_all

/-- How the information of a unit converts, with the ratio of the two units. -/
inductive Converts (unit i : TimeUnit) (info : Information) (factor : Nat) : Prop where
  | same (equal : unit = i) (one : factor = 1) (toMul : info.toMul = true)
      (fromMul : info.fromMul = true) (timeTo : info.timeTo = .ofInt (1 : Nat))
      (timeFrom : info.timeFrom = .ofInt (1 : Nat))
  | coarser (ratio : i.femtoseconds = factor * unit.femtoseconds) (more : 1 < factor)
      (toMul : info.toMul = false) (fromMul : info.fromMul = true)
      (timeTo : info.timeTo = ⟨BitVec.ofNat 128 (Reciprocal.reciprocal (2 ^ 128) factor)⟩)
      (timeFrom : info.timeFrom = .ofInt factor)
  | finer (ratio : unit.femtoseconds = factor * i.femtoseconds) (more : 1 < factor)
      (toMul : info.toMul = true) (fromMul : info.fromMul = false)
      (timeTo : info.timeTo = .ofInt factor)
      (timeFrom : info.timeFrom = ⟨BitVec.ofNat 128 (Reciprocal.reciprocal (2 ^ 128) factor)⟩)

theorem femtoseconds_pos (unit : TimeUnit) : 0 < unit.femtoseconds := by
  cases unit <;> decide

theorem eq_of_femtoseconds {unit i : TimeUnit} (same : unit.femtoseconds = i.femtoseconds) : unit = i := by
  revert same
  cases unit <;> cases i <;> decide

/-- The units are more than a factor of 2⁶³ apart. -/
def OutOfRange : Prop :=
  2 ^ 63 * unit.femtoseconds < i.femtoseconds ∨ 2 ^ 63 * i.femtoseconds < unit.femtoseconds

/-- No assertion fails, and the information of a unit in range converts by the ratio of the
units. -/
theorem exists_information (old : Information) :
    ∃ info, information unit i old = some info ∧ (info.isValid = true ∨ OutOfRange unit i) ∧
      (info.isValid = true -> ∃ factor : Nat, 0 < factor ∧ factor < 2 ^ 63 ∧
        info.factor = Int64.ofNat factor ∧ Converts unit i info factor) := by
  obtain ⟨exact, divides, identical, notLimit, above, below, coarse, fine⟩ :=
    exists_proportionate unit i
  rw [information, divides, bind_some]
  generalize 10 ^ (shift unit i).natAbs * exact = product at *
  have unitPositive := femtoseconds_pos unit
  have iPositive := femtoseconds_pos i
  by_cases tooLarge : 2 ^ 63 < product
  · rw [if_pos tooLarge]
    refine ⟨_, rfl, .inr ?_, fun valid => absurd valid Bool.false_ne_true⟩
    rcases Nat.le_total unit.femtoseconds i.femtoseconds with longer | shorter
    · refine .inl ?_
      rw [coarse longer]
      exact Nat.mul_lt_mul_of_pos_right tooLarge unitPositive
    · refine .inr ?_
      rw [fine shorter]
      exact Nat.mul_lt_mul_of_pos_right tooLarge iPositive
  rw [if_neg tooLarge]
  have fits : product < 2 ^ 63 := by omega
  have factor : (Int64.ofNat product).toInt = (product : Nat) := Int64.toInt_ofNat_of_lt fits
  have unsigned : (Int64.ofNat product).toUInt64.toNat = product := by
    exact Nat.mod_eq_of_lt (by omega)
  by_cases same : shift unit i = 0 ∧ exact = 1
  · obtain rfl := identical.mp same
    have one : product = 1 :=
      Nat.eq_of_mul_eq_mul_right unitPositive (by rw [← coarse (Nat.le_refl _), Nat.one_mul])
    subst one
    rw [if_pos same]
    exact ⟨_, rfl, .inl rfl, fun _ => ⟨1, Nat.one_pos, by decide, rfl, .same rfl rfl rfl rfl rfl rfl⟩⟩
  rw [if_neg same]
  by_cases larger : unit.femtoseconds < i.femtoseconds
  · have ratio := coarse (Nat.le_of_lt larger)
    have more : 1 < product := by
      by_contra few
      nlinarith
    rw [if_pos (above.mpr larger), Int64x64.invert_eq (by omega) (by omega), unsigned, factor]
    exact ⟨_, rfl, .inl rfl, fun _ => ⟨product, Nat.lt_trans Nat.one_pos more, fits, rfl,
      .coarser ratio more rfl rfl rfl rfl⟩⟩
  · have smaller : i.femtoseconds < unit.femtoseconds :=
      Nat.lt_of_le_of_ne (Nat.le_of_not_lt larger) fun equal =>
        same (identical.mpr (eq_of_femtoseconds equal.symm))
    have ratio := fine (Nat.le_of_lt smaller)
    have more : 1 < product := by
      by_contra few
      nlinarith
    rw [if_neg fun found => larger (above.mp found), if_pos (below.mpr smaller),
      Int64x64.invert_eq (by omega) (by omega), unsigned, factor]
    exact ⟨_, rfl, .inl rfl, fun _ => ⟨product, Nat.lt_trans Nat.one_pos more, fits, rfl,
      .finer ratio more rfl rfl rfl rfl⟩⟩

theorem setInformation_spec (unit : TimeUnit) (units : List TimeUnit) (old : TimeUnit -> Information) :
    ∃ result, setInformation unit units old = some result ∧ (∀ i ∉ units, result i = old i) ∧
      (units.Nodup -> ∀ i ∈ units, information unit i (old i) = some (result i)) := by
  induction units generalizing old with
  | nil => exact ⟨old, rfl, fun _ _ => rfl, fun _ _ mem => nomatch mem⟩
  | cons first rest ih =>
    obtain ⟨changed, computed, -, -⟩ := exists_information unit first (old first)
    obtain ⟨result, continued, untouched, computes⟩ :=
      ih fun other => if other = first then changed else old other
    refine ⟨result, by rw [setInformation, computed]; exact continued, ?_, ?_⟩
    · intro i absent
      rw [mem_cons, not_or] at absent
      rw [untouched i absent.2, if_neg absent.1]
    · intro distinct i mem
      obtain ⟨notAgain, distinctRest⟩ := nodup_cons.mp distinct
      by_cases isFirst : i = first
      · subst isFirst
        rw [untouched i notAgain, if_pos rfl]
        exact computed
      · have later := (mem_cons.mp mem).resolve_left isFirst
        rw [← computes distinctRest i later, if_neg isFirst]

theorem setResolution_converts (unit : TimeUnit) (old : Resolution) :
    ∃ resolution, setResolution unit old = some resolution ∧ resolution.unit = unit ∧
      ∀ i, ((resolution.info i).isValid = true ∨ OutOfRange unit i) ∧
        ((resolution.info i).isValid = true -> ∃ factor : Nat, 0 < factor ∧ factor < 2 ^ 63 ∧
          (resolution.info i).factor = Int64.ofNat factor ∧ Converts unit i (resolution.info i) factor) := by
  obtain ⟨result, looped, -, computed⟩ := setInformation_spec unit TimeUnit.all old.info
  refine ⟨⟨result, unit⟩, by rw [setResolution, looped]; rfl, rfl, fun i => ?_⟩
  obtain ⟨info, found, converts⟩ := exists_information unit i (old.info i)
  cases found.symm.trans (computed (by decide) i i.mem_all)
  exact converts

end Resolution

namespace Time

open Int64x64 Reciprocal

variable {resolution : Resolution} {unit : TimeUnit} {factor n : Nat}

theorem words : 2 ^ 128 = 2 ^ 64 * 2 ^ 64 := by
  norm_num

theorem reciprocal_le (more : 1 < factor) : reciprocal (2 ^ 128) factor ≤ 2 ^ 127 := by
  obtain ⟨excess, small, product⟩ := exists_excess (2 ^ 128) (lt_trans one_pos more)
  by_contra large
  nlinarith

theorem data_ne_zero (pos : 0 < n) (fits : n < 2 ^ 63) : Int64.ofNat n ≠ 0 := by
  intro zero
  have value := Int64.toInt_ofNat_of_lt fits
  rw [zero] at value
  have none : (0 : Int64).toInt = 0 := rfl
  omega

theorem ofFixed_of_fromMul (valid : (resolution.info unit).isValid = true)
    (fromMul : (resolution.info unit).fromMul = true)
    (timeFrom : (resolution.info unit).timeFrom = .ofInt factor) (nFits : n < 2 ^ 63)
    (factorFits : factor < 2 ^ 63) :
    ofFixed resolution (.ofInt n) unit =
      if n * factor < 2 ^ 63 then some ⟨Int64.ofNat (n * factor)⟩ else none := by
  rcases Nat.eq_zero_or_pos n with rfl | pos
  · rw [Nat.zero_mul, if_pos (by decide), ofFixed]
    exact if_pos rfl
  · rw [ofFixed, if_neg (ofInt_ne_zero pos nFits)]
    simp only [valid, fromMul, timeFrom, if_true, mul_ofInt nFits factorFits]
    by_cases fits : n * factor < 2 ^ 63
    · rw [if_pos fits, if_pos fits, map_some, round_ofInt fits]
    · rw [if_neg fits, if_neg fits, map_none]

theorem toFixed_of_toMul (valid : (resolution.info unit).isValid = true) (toMul : (resolution.info unit).toMul = true)
    (timeTo : (resolution.info unit).timeTo = .ofInt factor) (nFits : n < 2 ^ 63)
    (factorFits : factor < 2 ^ 63) :
    toFixed resolution ⟨Int64.ofNat n⟩ unit =
      if n * factor < 2 ^ 63 then some (.ofInt (n * factor : Nat)) else none := by
  rcases Nat.eq_zero_or_pos n with rfl | pos
  · rw [Nat.zero_mul, if_pos (by decide), toFixed]
    exact if_pos rfl
  · rw [toFixed, if_neg (data_ne_zero pos nFits)]
    simp only [valid, toMul, timeTo, if_true, Int64.toInt_ofNat_of_lt nFits, mul_ofInt nFits factorFits]

theorem mulByInvert_reciprocal (more : 1 < factor) (fits : n < 2 ^ 63) :
    ∃ value : Int64x64, value.v.toNat = n * reciprocal (2 ^ 128) factor / 2 ^ 64 ∧
      (ofInt n).mulByInvert ⟨BitVec.ofNat 128 (reciprocal (2 ^ 128) factor)⟩ = some value := by
  have bound := reciprocal_le more
  have inverse := toNat_ofNat_of_fits (n := reciprocal (2 ^ 128) factor) (by omega)
  have product := mulByInvert_eq (o := ⟨BitVec.ofNat 128 (reciprocal (2 ^ 128) factor)⟩)
    (ofInt_toNat fits) fits (by rw [inverse]; exact bound)
  rw [inverse] at product
  refine ⟨_, toNat_ofNat_of_fits ?_, product⟩
  have := mul_le_mul (le_of_lt fits) bound
  omega

section

variable (valid : (resolution.info unit).isValid = true)
include valid

theorem toFixed_of_not_toMul (toMul : (resolution.info unit).toMul = false) (timeTo : (resolution.info unit).timeTo =
      ⟨BitVec.ofNat 128 (reciprocal (2 ^ 128) factor)⟩) (more : 1 < factor) (nFits : n < 2 ^ 63) :
    ∃ value : Int64x64, value.v.toNat = n * reciprocal (2 ^ 128) factor / 2 ^ 64 ∧
      toFixed resolution ⟨Int64.ofNat n⟩ unit = some value := by
  rcases Nat.eq_zero_or_pos n with rfl | pos
  · refine ⟨.ofInt 0, by rw [Nat.zero_mul]; rfl, ?_⟩
    exact if_pos rfl
  · obtain ⟨value, digits, product⟩ := mulByInvert_reciprocal more nFits
    refine ⟨value, digits, ?_⟩
    rw [toFixed, if_neg (data_ne_zero pos nFits)]
    simp only [valid, toMul, timeTo, Int64.toInt_ofNat_of_lt nFits]
    exact product

theorem integers_exact (factorIs : (resolution.info unit).factor = Int64.ofNat factor)
    (toMul : (resolution.info unit).toMul = false) (fromMul : (resolution.info unit).fromMul = true)
    (timeTo : (resolution.info unit).timeTo = ⟨BitVec.ofNat 128 (reciprocal (2 ^ 128) factor)⟩)
    (timeFrom : (resolution.info unit).timeFrom = .ofInt factor) (more : 1 < factor)
    (factorFits : factor < 2 ^ 63) (fits : n * factor < 2 ^ 63) :
    fromInteger resolution (UInt64.ofNat n) unit = some ⟨Int64.ofNat (n * factor)⟩ ∧
      ofFixed resolution (.ofInt n) unit = some ⟨Int64.ofNat (n * factor)⟩ ∧
      toInteger resolution ⟨Int64.ofNat (n * factor)⟩ unit = some (Int64.ofNat n) ∧
      toFixed resolution ⟨Int64.ofNat (n * factor)⟩ unit = some (.ofInt n) := by
  have pos : 0 < factor := Nat.lt_trans Nat.one_pos more
  have nFits : n < 2 ^ 63 := Nat.lt_of_le_of_lt (Nat.le_mul_of_pos_right n pos) fits
  refine ⟨?_, ?_, ?_, ?_⟩
  · by_cases zero : UInt64.ofNat n = 0
    · have none : n = 0 := by
        rw [UInt64.ofNat_eq_iff_mod_eq_toNat, Nat.mod_eq_of_lt (by omega)] at zero
        exact zero
      rw [none, Nat.zero_mul]
      rfl
    · rw [fromInteger, if_neg zero]
      simp only [valid, fromMul, factorIs, if_true, Int64.toUInt64_ofNat', ← UInt64.ofNat_mul, UInt64.toInt64_ofNat']
  · rw [ofFixed_of_fromMul valid fromMul timeFrom nFits factorFits, if_pos fits]
  · rcases Nat.eq_zero_or_pos n with rfl | some
    · rw [Nat.zero_mul]
      exact if_pos rfl
    · rw [toInteger, if_neg (data_ne_zero (Nat.mul_pos some pos) fits)]
      simp only [valid, toMul, factorIs, if_true, Bool.false_eq_true, if_false,
        data_ne_zero pos factorFits, ← Int64.ofNat_div fits factorFits,
        Nat.mul_div_cancel n pos]
  · obtain ⟨value, digits, converted⟩ := toFixed_of_not_toMul valid toMul timeTo more fits
    rw [converted, Option.some.injEq]
    refine ofInt_eq_of_toNat nFits ?_
    rw [digits, words]
    exact mul_reciprocal_of_multiple (2 ^ 64) pos (Nat.le_of_lt (by omega)) (by decide)

theorem roundTo_coarser
    (toMul : (resolution.info unit).toMul = false) (fromMul : (resolution.info unit).fromMul = true)
    (timeTo : (resolution.info unit).timeTo = ⟨BitVec.ofNat 128 (reciprocal (2 ^ 128) factor)⟩)
    (timeFrom : (resolution.info unit).timeFrom = .ofInt factor) (more : 1 < factor)
    (factorFits : factor < 2 ^ 63) (nFits : n < 2 ^ 63) :
    roundTo resolution ⟨Int64.ofNat n⟩ unit = if nearest n factor * factor < 2 ^ 63 then
      some ⟨Int64.ofNat (nearest n factor * factor)⟩ else none := by
  have pos : 0 < factor := lt_trans one_pos more
  obtain ⟨value, digits, converted⟩ := toFixed_of_not_toMul valid toMul timeTo more nFits
  have bound := mul_le_mul (le_of_lt nFits) (reciprocal_le more)
  have rounded : value.round.toInt = (nearest n factor : Nat) := by
    have nearly := round_mul_reciprocal (2 ^ 63) (2 ^ 64) pos (le_of_lt nFits) (by omega) (by decide)
    rw [show 2 * 2 ^ 63 = 2 ^ 64 by norm_num, ← words] at nearly
    rw [round_of_nonneg (by omega), digits, nearly]
  rw [roundTo, converted, bind_some, rounded]
  exact ofFixed_of_fromMul valid fromMul timeFrom (lt_of_le_of_lt (nearest_le n pos) nFits) factorFits

theorem roundTo_same (toMul : (resolution.info unit).toMul = true) (fromMul : (resolution.info unit).fromMul = true)
    (timeTo : (resolution.info unit).timeTo = .ofInt (1 : Nat))
    (timeFrom : (resolution.info unit).timeFrom = .ofInt (1 : Nat)) (nFits : n < 2 ^ 63) :
    roundTo resolution ⟨Int64.ofNat n⟩ unit = some ⟨Int64.ofNat n⟩ := by
  rw [roundTo, toFixed_of_toMul valid toMul timeTo nFits (by decide), mul_one, if_pos nFits,
    bind_some, round_ofInt nFits, Int64.toInt_ofNat_of_lt nFits,
    ofFixed_of_fromMul valid fromMul timeFrom nFits (by decide), mul_one, if_pos nFits]

theorem roundTo_finer (toMul : (resolution.info unit).toMul = true) (fromMul : (resolution.info unit).fromMul = false)
    (timeTo : (resolution.info unit).timeTo = .ofInt factor) (timeFrom : (resolution.info unit).timeFrom =
      ⟨BitVec.ofNat 128 (reciprocal (2 ^ 128) factor)⟩) (more : 1 < factor)
    (factorFits : factor < 2 ^ 63) (nFits : n < 2 ^ 63) :
    roundTo resolution ⟨Int64.ofNat n⟩ unit =
      if n * factor < 2 ^ 63 then some ⟨Int64.ofNat n⟩ else none := by
  have pos : 0 < factor := Nat.lt_trans Nat.one_pos more
  rw [roundTo, toFixed_of_toMul valid toMul timeTo nFits factorFits]
  by_cases fits : n * factor < 2 ^ 63
  · rw [if_pos fits, if_pos fits, bind_some, round_ofInt fits, Int64.toInt_ofNat_of_lt fits]
    rcases Nat.eq_zero_or_pos n with rfl | some
    · rw [Nat.zero_mul]
      exact if_pos rfl
    · obtain ⟨value, digits, product⟩ := mulByInvert_reciprocal more fits
      have exact : value = .ofInt n := by
        refine ofInt_eq_of_toNat nFits ?_
        rw [digits, words]
        exact mul_reciprocal_of_multiple (2 ^ 64) pos (Nat.le_of_lt (by omega)) (by decide)
      rw [ofFixed, if_neg (ofInt_ne_zero (Nat.mul_pos some pos) fits)]
      simp only [valid, fromMul, timeFrom, if_true, Bool.false_eq_true, if_false, product,
        map_some, exact, round_ofInt nFits]
  · rw [if_neg fits, if_neg fits, bind_none]

end

end Time

/-- The conversions of a unit: its factor is the ratio of the units; whole numbers of a coarser
unit are converted exactly in all ways; and a time is rounded to the nearest multiple of the
unit, halves up, unless the multiple is too large for either unit. -/
structure ConvertsExactly (resolution : Resolution) (unit : TimeUnit) : Prop where
  coarser : resolution.unit.femtoseconds ≤ unit.femtoseconds -> (unit.femtoseconds : Int) =
      (resolution.info unit).factor.toInt * resolution.unit.femtoseconds
  finer : unit.femtoseconds ≤ resolution.unit.femtoseconds -> (resolution.unit.femtoseconds : Int) =
      (resolution.info unit).factor.toInt * unit.femtoseconds
  integers : resolution.unit.femtoseconds < unit.femtoseconds -> ∀ value : Nat,
    value * (resolution.info unit).factor.toInt < 2 ^ 63 -> ∃ time integer,
      Time.fromInteger resolution (UInt64.ofNat value) unit = some time ∧
      Time.ofFixed resolution (.ofInt value) unit = some time ∧
      time.toInteger resolution unit = some integer ∧ integer.toInt = value ∧
      time.toFixed resolution unit = some (.ofInt value)
  rounds : ∀ (time : Time) (ticks units : Nat), time.data.toInt = ticks ->
    units = Reciprocal.nearest (ticks * resolution.unit.femtoseconds) unit.femtoseconds ->
      if units < 2 ^ 63 ∧ units * unit.femtoseconds < 2 ^ 63 * resolution.unit.femtoseconds then
        ∃ rounded multiple, time.roundTo resolution unit = some rounded ∧ rounded.data.toInt = (multiple : Nat) ∧
          multiple * resolution.unit.femtoseconds = units * unit.femtoseconds
      else
        time.roundTo resolution unit = none

namespace Resolution

variable {unit i : TimeUnit} {info : Information} {factor : Nat}

theorem Converts.ratio (converts : Converts unit i info factor) :
    (unit.femtoseconds ≤ i.femtoseconds -> i.femtoseconds = factor * unit.femtoseconds) ∧
      (i.femtoseconds ≤ unit.femtoseconds -> unit.femtoseconds = factor * i.femtoseconds) := by
  cases converts with
  | same equal one =>
    subst equal one
    exact ⟨fun _ => (one_mul _).symm, fun _ => (one_mul _).symm⟩
  | coarser ratio more => exact ⟨fun _ => ratio, fun less => by nlinarith⟩
  | finer ratio more => exact ⟨fun less => by nlinarith, fun _ => ratio⟩

theorem Converts.rounds {resolution : Resolution} {ticks : Nat}
    (converts : Converts unit i (resolution.info i) factor)
    (valid : (resolution.info i).isValid = true) (fits : factor < 2 ^ 63)
    (ticksFit : ticks < 2 ^ 63) {units : Nat}
    (counted : units = Reciprocal.nearest (ticks * unit.femtoseconds) i.femtoseconds) :
    if units < 2 ^ 63 ∧ units * i.femtoseconds < 2 ^ 63 * unit.femtoseconds then
      ∃ rounded multiple, (⟨Int64.ofNat ticks⟩ : Time).roundTo resolution i = some rounded ∧
        rounded.data.toInt = (multiple : Nat) ∧
        multiple * unit.femtoseconds = units * i.femtoseconds
    else
      (⟨Int64.ofNat ticks⟩ : Time).roundTo resolution i = none := by
  have unitPositive := femtoseconds_pos unit
  have iPositive := femtoseconds_pos i
  cases converts with
  | same equal one toMul fromMul timeTo timeFrom =>
    subst equal
    have self := Reciprocal.nearest_mul_right ticks 1 unitPositive
    rw [Nat.one_mul, Reciprocal.nearest_one] at self
    rw [self] at counted
    subst counted
    rw [if_pos ⟨ticksFit, Nat.mul_lt_mul_of_pos_right ticksFit unitPositive⟩]
    exact ⟨_, units, Time.roundTo_same valid toMul fromMul timeTo timeFrom ticksFit,
      Int64.toInt_ofNat_of_lt ticksFit, rfl⟩
  | coarser ratio more toMul fromMul timeTo timeFrom =>
    have rounded := Time.roundTo_coarser valid toMul fromMul timeTo timeFrom more fits ticksFit
    rw [ratio, Reciprocal.nearest_mul_right ticks factor unitPositive] at counted
    have few := Reciprocal.nearest_le ticks (Nat.lt_trans Nat.one_pos more)
    rw [← counted] at rounded few
    have same : units * i.femtoseconds = units * factor * unit.femtoseconds := by
      rw [ratio, Nat.mul_assoc]
    have representable : units < 2 ^ 63 ∧ units * i.femtoseconds < 2 ^ 63 * unit.femtoseconds ↔
        units * factor < 2 ^ 63 := by
      rw [same, Nat.mul_lt_mul_right unitPositive]
      exact and_iff_right (Nat.lt_of_le_of_lt few ticksFit)
    by_cases small : units * factor < 2 ^ 63
    · rw [if_pos (representable.mpr small)]
      exact ⟨_, units * factor, rounded.trans (if_pos small), Int64.toInt_ofNat_of_lt small, same.symm⟩
    · rw [if_neg fun fit => small (representable.mp fit)]
      exact rounded.trans (if_neg small)
  | finer ratio more toMul fromMul timeTo timeFrom =>
    have rounded := Time.roundTo_finer valid toMul fromMul timeTo timeFrom more fits ticksFit
    have whole := Reciprocal.nearest_mul_right (ticks * factor) 1 iPositive
    rw [Nat.one_mul, Reciprocal.nearest_one, Nat.mul_assoc, ← ratio] at whole
    rw [whole] at counted
    have same : units * i.femtoseconds = ticks * unit.femtoseconds := by
      rw [counted, ratio, Nat.mul_assoc]
    have representable : units < 2 ^ 63 ∧ units * i.femtoseconds < 2 ^ 63 * unit.femtoseconds ↔
        ticks * factor < 2 ^ 63 := by
      rw [same, Nat.mul_lt_mul_right unitPositive, counted]
      exact and_iff_left ticksFit
    by_cases small : ticks * factor < 2 ^ 63
    · rw [if_pos (representable.mpr small)]
      exact ⟨_, ticks, rounded.trans (if_pos small), Int64.toInt_ofNat_of_lt ticksFit, same.symm⟩
    · rw [if_neg fun fit => small (representable.mp fit)]
      exact rounded.trans (if_neg small)

end Resolution

theorem Resolution.Converts.exactly {resolution : Resolution} {unit : TimeUnit} {factor : Nat}
    (converts : Resolution.Converts resolution.unit unit (resolution.info unit) factor)
    (valid : (resolution.info unit).isValid = true) (pos : 0 < factor)
    (fits : factor < 2 ^ 63) (factorIs : (resolution.info unit).factor = Int64.ofNat factor) :
    ConvertsExactly resolution unit := by
  have value : (resolution.info unit).factor.toInt = factor := by
    rw [factorIs, Int64.toInt_ofNat_of_lt fits]
  refine ⟨fun longer => ?_, fun shorter => ?_, fun longer n nFits => ?_, ?_⟩
  · rw [value, converts.ratio.1 longer]
    exact Int.natCast_mul _ _
  · rw [value, converts.ratio.2 shorter]
    exact Int.natCast_mul _ _
  · rw [value] at nFits
    cases converts with
    | same equal => exact absurd longer (equal ▸ Nat.lt_irrefl _)
    | finer ratio more => exact absurd longer (by nlinarith [Resolution.femtoseconds_pos unit])
    | coarser ratio more toMul fromMul timeTo timeFrom =>
      have product : n * factor < 2 ^ 63 := by exact_mod_cast nFits
      obtain ⟨fromInteger, ofFixed, toInteger, toFixed⟩ :=
        Time.integers_exact valid factorIs toMul fromMul timeTo timeFrom more fits product
      exact ⟨_, _, fromInteger, ofFixed, toInteger,
        Int64.toInt_ofNat_of_lt (Nat.lt_of_le_of_lt (Nat.le_mul_of_pos_right n pos) product),
        toFixed⟩
  · rintro ⟨data⟩ ticks units ticksIs counted
    replace ticksIs : data.toInt = ticks := ticksIs
    have ticksFit : ticks < 2 ^ 63 := by
      have := data.toInt_lt
      omega
    have same : data = Int64.ofNat ticks := by
      rw [← Int64.toInt_inj, Int64.toInt_ofNat_of_lt ticksFit]
      exact ticksIs
    subst same
    exact converts.rounds valid fits ticksFit counted

/-- Every resolution can be set; then all units are valid but those out of range, and the
conversions of the valid ones are exact. -/
theorem converts_exactly (unit : TimeUnit) (old : Resolution) :
    ∃ resolution, Resolution.setResolution unit old = some resolution ∧ resolution.unit = unit ∧
      ∀ i, ((resolution.info i).isValid = true ∨ Resolution.OutOfRange unit i) ∧
        ((resolution.info i).isValid = true -> ConvertsExactly resolution i) := by
  obtain ⟨resolution, success, rfl, converts⟩ := Resolution.setResolution_converts unit old
  refine ⟨resolution, success, rfl, fun i => ⟨(converts i).1, fun valid => ?_⟩⟩
  obtain ⟨factor, positive, fits, factorIs, convertsBy⟩ := (converts i).2 valid
  exact convertsBy.exactly valid positive fits factorIs

/-- Before the first `SetResolution`. -/
def Resolution.unset : Resolution :=
  ⟨fun _ => ⟨false, false, 0, .ofInt 0, .ofInt 0, false⟩, .NS⟩

/-- At the default resolution 9224 s, rounded to femtoseconds, is itself, but `To` overflows. -/
theorem rounding_overflows :
    ¬ ∀ (old resolution : Resolution) (unit i : TimeUnit) (time : Time) (ticks units : Nat),
      Resolution.setResolution unit old = some resolution -> (resolution.info i).isValid = true ->
      time.data.toInt = ticks -> units = Reciprocal.nearest (ticks * unit.femtoseconds) i.femtoseconds ->
      units * i.femtoseconds < 2 ^ 63 * unit.femtoseconds ->
        ∃ rounded, time.roundTo resolution i = some rounded ∧
          rounded.data.toInt * unit.femtoseconds = units * i.femtoseconds := by
  intro rounds
  have overflows : ∃ nanoseconds ∈ Resolution.setResolution .NS .unset,
      (nanoseconds.info .FS).isValid = true ∧ (⟨9224000000000⟩ : Time).roundTo nanoseconds .FS = none := by
    decide +kernel
  obtain ⟨nanoseconds, success, valid, failed⟩ := overflows
  obtain ⟨rounded, found, -⟩ := rounds .unset nanoseconds .NS .FS ⟨9224000000000⟩ 9224000000000
    9224000000000000000 success valid rfl (by decide +kernel) (by decide +kernel)
  rw [failed] at found
  cases found

end Ns3.Core
