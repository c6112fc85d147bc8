import Mathlib.Data.Prod.Lex
import Ns3.Semantics.PriorityQueue

/-!
# Schedulers

The events a simulation has still to execute, ordered by timestamp and by uid
within one timestamp. A `Scheduler` is a priority queue of events; the uid tells
events apart.
-/

namespace Ns3.Core

open Ns3.Semantics

/-- `Scheduler::EventKey`. -/
structure EventKey where
  ts : UInt64
  uid : UInt32
  context : UInt32
  deriving DecidableEq

/-- `Scheduler::Event`; `impl` is a pointer, 0 the null one. -/
structure Event where
  impl : Nat
  key : EventKey
  deriving DecidableEq

/-- `operator<` on keys. -/
def EventKey.lt (a b : EventKey) : Bool :=
  a.ts < b.ts || (a.ts == b.ts && a.uid < b.uid)

/-- `operator<` on events. -/
def Event.lt (a b : Event) : Bool :=
  a.key.lt b.key

def Event.uid (event : Event) : UInt32 :=
  event.key.uid

/-- The place of an event in the execution order. -/
def Event.rank (event : Event) : Nat ×ₗ Nat :=
  toLex (event.key.ts.toNat, event.key.uid.toNat)

theorem Event.lt_iff {a b : Event} : a.lt b = true ↔ a.rank < b.rank := by
  simp only [Event.lt, EventKey.lt, Event.rank, Prod.Lex.toLex_lt_toLex, Bool.or_eq_true,
    Bool.and_eq_true, decide_eq_true_eq, beq_iff_eq, UInt64.lt_iff_toNat_lt,
    UInt32.lt_iff_toNat_lt, UInt64.toNat_inj]

theorem Event.uid_eq_of_rank {a b : Event} (same : a.rank = b.rank) : a.uid = b.uid :=
  UInt32.toNat_inj.mp (congrArg (fun place => (ofLex place).2) same)

theorem Event.ts_le_of_rank {a b : Event} (before : a.rank ≤ b.rank) : a.key.ts.toNat ≤ b.key.ts.toNat := by
  rcases Prod.Lex.toLex_le_toLex.mp before with earlier | ⟨same, -⟩
  · exact Nat.le_of_lt earlier
  · exact Nat.le_of_eq same

/-- An event of the context 0. -/
def eventAt (ts : UInt64) (uid : UInt32) : Event :=
  ⟨uid.toNat, ts, uid, 0⟩

abbrev Scheduler (Store : Type) := PriorityQueue.Queue Store Event

end Ns3.Core
