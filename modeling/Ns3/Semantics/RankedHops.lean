import Mathlib.Logic.Relation
import Mathlib.Order.Defs.PartialOrder

/-!
# Next hops that climb

Each node of a network knows at most one way on, with a rank, and offers its way to others under a
rank of its own choosing. Where every way on was taken up below the rank of an offer, and nobody who
knows a way on has one worse than it ever offered, the ranks climb along the ways, so following them
never returns.
-/

namespace Ns3.Semantics.RankedHops

universe u v

variable {Node : Type u} {Rank : Type v} [Preorder Rank] {Next : Node -> Node -> Prop} {rank : Node -> Rank}
  {offers : Node -> Rank -> Prop} {i j k : Node}

/-- A hop leads to a higher rank, unless it ends where no way on is known. -/
def Climbs (Next : Node -> Node -> Prop) (rank : Node -> Rank) : Prop :=
  ∀ ⦃i j k⦄, Next i j -> Next j k -> rank i < rank j

/-- No way leads back to where it started. -/
def LoopFree (Next : Node -> Node -> Prop) : Prop :=
  ∀ i, ¬Relation.TransGen Next i i

theorem Climbs.lt_of_transGen (climbs : Climbs Next rank) (path : Relation.TransGen Next i j) (onward : Next j k) :
    rank i < rank j := by
  induction path generalizing k with
  | single hop => exact climbs hop onward
  | tail _ hop ih => exact lt_trans (ih hop) (climbs hop onward)

theorem Climbs.loopFree (climbs : Climbs Next rank) : LoopFree Next := by
  intro i cycle
  obtain ⟨j, hop, _⟩ := Relation.TransGen.head'_iff.mp cycle
  exact lt_irrefl _ (climbs.lt_of_transGen cycle hop)

structure Offered (Next : Node -> Node -> Prop) (rank : Node -> Rank) (offers : Node -> Rank -> Prop) : Prop where
  /-- Whoever uses a node took up one of its offers, and ranks below it. -/
  taken : ∀ ⦃i j⦄, Next i j -> ∃ offer, offers j offer ∧ rank i < offer
  /-- Whoever knows a way on is no worse off than it ever offered. -/
  kept : ∀ ⦃j k offer⦄, Next j k -> offers j offer -> offer ≤ rank j

theorem Offered.climbs (offered : Offered Next rank offers) : Climbs Next rank := by
  intro i j k hop onward
  obtain ⟨offer, made, below⟩ := offered.taken hop
  exact lt_of_lt_of_le below (offered.kept onward made)

theorem Offered.loopFree (offered : Offered Next rank offers) : LoopFree Next :=
  offered.climbs.loopFree

end Ns3.Semantics.RankedHops
