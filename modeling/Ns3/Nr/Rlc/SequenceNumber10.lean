import Mathlib.Data.Fin.Basic

/-!
# Sequence numbers of the RLC

A number of 10 bits with the modulus base that comparisons start from. Two numbers are compared only
if their bases are equal.
-/

namespace Ns3.Nr

structure SequenceNumber10 where
  value : Fin 1024 := 0
  modulusBase : Nat := 0
  deriving DecidableEq

namespace SequenceNumber10

variable {n other : SequenceNumber10} {delta : Nat}

/-- The constructor. -/
def ofValue (value : Nat) : SequenceNumber10 where
  value := Fin.ofNat 1024 value

def getValue (n : SequenceNumber10) : Nat :=
  n.value

/-- The assignment of a number, which keeps the base. -/
def assign (n : SequenceNumber10) (value : Nat) : SequenceNumber10 :=
  { n with value := Fin.ofNat 1024 value }

theorem ofValue_getValue (n : SequenceNumber10) : ofValue n.getValue = { n with modulusBase := 0 } := by
  have same : Fin.ofNat 1024 n.getValue = n.value := Fin.ext (Nat.mod_eq_of_lt n.value.isLt)
  rw [ofValue, same]

def setModulusBase (n : SequenceNumber10) (modulusBase : Nat) : SequenceNumber10 :=
  { n with modulusBase := modulusBase }

/-- `operator++`. -/
def increment (n : SequenceNumber10) : SequenceNumber10 :=
  { n with value := Fin.ofNat 1024 (n.value + 1) }

/-- `operator+`. -/
def add (n : SequenceNumber10) (delta : Nat) : SequenceNumber10 :=
  { n with value := Fin.ofNat 1024 (n.value + delta) }

/-- `operator-` with a number: the remainder is negative below zero, and a multiple of 1024 makes it
unsigned. -/
def sub (n : SequenceNumber10) (delta : Nat) : SequenceNumber10 :=
  { n with value := Fin.ofNat 1024 (((n.value : Int) - delta).tmod 1024 % 65536).toNat }

/-- What the comparisons compare: the remainder takes the sign of the difference. -/
def fromBase (n : SequenceNumber10) : Nat :=
  (((n.value : Int) - n.modulusBase).tmod 1024 % 65536).toNat

/-- `operator>`, without its assertion. -/
def gt (n other : SequenceNumber10) : Bool :=
  n.fromBase > other.fromBase

/-- `operator==`. -/
def eq (n other : SequenceNumber10) : Bool :=
  n.value = other.value

def le (n other : SequenceNumber10) : Bool :=
  !n.gt other

def ge (n other : SequenceNumber10) : Bool :=
  n.gt other || n.eq other

def lt (n other : SequenceNumber10) : Bool :=
  !n.gt other && !n.eq other

/-- A comparison with the assertion of `operator>` that the bases are equal. -/
def checked {Error : Type} (failure : Error) (comparison : SequenceNumber10 -> SequenceNumber10 -> Bool)
    (n other : SequenceNumber10) : Except Error Bool :=
  if n.modulusBase = other.modulusBase then .ok (comparison n other) else .error failure

/-- The numbers that a loop visits from a first one up to a bound, each of them once at most. -/
def visited (bound : SequenceNumber10) : Nat -> SequenceNumber10 -> List SequenceNumber10
  | 0, _ => []
  | rounds + 1, sn => if sn.lt bound then sn :: visited bound rounds sn.increment else []

/-- `for (sn = first; sn < bound; sn++)`. -/
def upTo (first bound : SequenceNumber10) : List SequenceNumber10 :=
  visited bound 1024 first

end SequenceNumber10
end Ns3.Nr
