import Ns3.Core.Int64x64.Arithmetic

/-!
# Times and their resolution

A `Time` counts ticks of the resolution in force. `SetResolution` prepares, for each
unit, the factors that convert to and from it. Its doubles are modelled by the integers
they stand for: `products_are_doubles` shows that each of them is a double.
-/

namespace Ns3.Core

/-- `Time::Unit`. -/
inductive TimeUnit where
  | Y | D | H | MIN | S | MS | US | NS | PS | FS
  deriving DecidableEq

namespace TimeUnit

/-- The units, as `SetResolution` goes through them. -/
def all : List TimeUnit :=
  [Y, D, H, MIN, S, MS, US, NS, PS, FS]

/-- `UNIT_POWER`. -/
def power : TimeUnit -> Int
  | Y => 17 | D => 17 | H => 17 | MIN => 16 | S => 15
  | MS => 12 | US => 9 | NS => 6 | PS => 3 | FS => 0

/-- `UNIT_COEFF`. -/
def coeff : TimeUnit -> Nat
  | Y => 315360 | D => 864 | H => 36 | MIN => 6 | _ => 1

end TimeUnit

/-- `Time::Information`. -/
structure Information where
  toMul : Bool
  fromMul : Bool
  factor : Int64
  timeTo : Int64x64
  timeFrom : Int64x64
  isValid : Bool
  deriving DecidableEq

/-- `Time::Resolution`. -/
structure Resolution where
  info : TimeUnit -> Information
  unit : TimeUnit

namespace Resolution

variable (unit i : TimeUnit)

/-- The power of ten between two units. -/
def shift : Int :=
  i.power - unit.power

/-- The quotient of the coefficients, the larger by the smaller, which is asserted to be exact. -/
def quotient : Option Nat :=
  if unit.coeff < i.coeff then
    if i.coeff / unit.coeff * unit.coeff = i.coeff then some (i.coeff / unit.coeff) else none
  else if i.coeff < unit.coeff then
    if unit.coeff / i.coeff * i.coeff = unit.coeff then some (unit.coeff / i.coeff) else none
  else
    some 1

/-- `realFactor > 1`. -/
def realFactorAboveOne : Bool :=
  if 0 ≤ shift unit i then
    unit.coeff < 10 ^ (shift unit i).natAbs * i.coeff
  else
    10 ^ (shift unit i).natAbs * unit.coeff < i.coeff

/-- `realFactor < 1`. -/
def realFactorBelowOne : Bool :=
  if 0 ≤ shift unit i then
    10 ^ (shift unit i).natAbs * i.coeff < unit.coeff
  else
    i.coeff < 10 ^ (shift unit i).natAbs * unit.coeff

/-- The products and powers of ten `SetResolution` computes have at most 53 binary digits
before their trailing zeros. -/
theorem products_are_doubles : ∀ unit ∈ TimeUnit.all, ∀ i ∈ TimeUnit.all,
    5 ^ (shift unit i).natAbs < 2 ^ 53 ∧ ∃ zeros < 25, ∃ product ∈
      (quotient unit i).map fun quotient => 10 ^ (shift unit i).natAbs * quotient,
        product % 2 ^ zeros = 0 ∧ product / 2 ^ zeros < 2 ^ 53 := by
  decide +kernel

/-- The body of the loop of `SetResolution`, for the information of unit `i`. -/
def information (info : Information) : Option Information :=
  (quotient unit i).bind fun quotient =>
    let product := 10 ^ (shift unit i).natAbs * quotient
    if 2 ^ 63 < product then
      some { info with isValid := false }
    else
      let factor := Int64.ofNat product
      if shift unit i = 0 ∧ quotient = 1 then
        some ⟨true, true, factor, .ofInt 1, .ofInt 1, true⟩
      else if realFactorAboveOne unit i then
        (Int64x64.invert factor.toUInt64).map fun inverse =>
          ⟨false, true, factor, inverse, .ofInt factor.toInt, true⟩
      else if realFactorBelowOne unit i then
        (Int64x64.invert factor.toUInt64).map fun inverse =>
          ⟨true, false, factor, .ofInt factor.toInt, inverse, true⟩
      else
        none

/-- The loop of `SetResolution`. -/
def setInformation (unit : TimeUnit) : List TimeUnit -> (TimeUnit -> Information) -> Option (TimeUnit -> Information)
  | [], info => some info
  | i :: rest, info =>
    (information unit i (info i)).bind fun changed =>
      setInformation unit rest fun other => if other = i then changed else info other

/-- `SetResolution`, without the conversion of the times that exist already. -/
def setResolution (unit : TimeUnit) (resolution : Resolution) : Option Resolution :=
  (setInformation unit TimeUnit.all resolution.info).map fun info => ⟨info, unit⟩

end Resolution

/-- `Time`, in ticks. -/
structure Time where
  data : Int64
  deriving DecidableEq

namespace Time

variable (resolution : Resolution)

def fromInteger (value : UInt64) (unit : TimeUnit) : Option Time :=
  if value = 0 then
    some ⟨0⟩
  else
    let info := resolution.info unit
    if info.isValid then
      if info.fromMul then
        some ⟨(value * info.factor.toUInt64).toInt64⟩
      else if info.factor = 0 then
        none
      else
        some ⟨(value / info.factor.toUInt64).toInt64⟩
    else
      none

/-- `From`. -/
def ofFixed (value : Int64x64) (unit : TimeUnit) : Option Time :=
  if value = .ofInt 0 then
    some ⟨0⟩
  else
    let info := resolution.info unit
    if info.isValid then
      (if info.fromMul then value.mul info.timeFrom else value.mulByInvert info.timeFrom).map
        fun retval => ⟨retval.round⟩
    else
      none

def toInteger (time : Time) (unit : TimeUnit) : Option Int64 :=
  if time.data = 0 then
    some 0
  else
    let info := resolution.info unit
    if info.isValid then
      if info.toMul then
        some (time.data * info.factor)
      else if info.factor = 0 then
        none
      else
        some (time.data / info.factor)
    else
      none

/-- `To`. -/
def toFixed (time : Time) (unit : TimeUnit) : Option Int64x64 :=
  if time.data = 0 then
    some (.ofInt 0)
  else
    let info := resolution.info unit
    if info.isValid then
      let retval := Int64x64.ofInt time.data.toInt
      if info.toMul then retval.mul info.timeTo else retval.mulByInvert info.timeTo
    else
      none

def roundTo (time : Time) (unit : TimeUnit) : Option Time :=
  (time.toFixed resolution unit).bind fun value =>
    ofFixed resolution (.ofInt value.round.toInt) unit

end Time

end Ns3.Core
