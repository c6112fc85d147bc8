import Mathlib.Data.List.Basic

/-!
# Framing

Units of a stream are carried in pieces. A piece says whether a unit starts and whether one ends
with it, and a block of consecutive pieces says so of its first and of its last one only. `feed`
joins the pieces again and fails where the flags contradict what came before.
-/

namespace Ns3.Semantics.Framing

open List Option

universe u

variable {Item : Type u}

structure Piece (Item : Type u) where
  starts : Bool
  ends : Bool
  content : List Item

/-- The units that are complete, and the part of one that has begun. -/
structure Assembly (Item : Type u) where
  complete : List (List Item) := []
  begun : Option (List Item) := none

variable {assembly : Assembly Item} {starts ends : Bool} {front back : List Item}

/-- What has begun when a piece has been added to it. -/
def Assembly.extend (assembly : Assembly Item) (starts : Bool) (content : List Item) : Option (List Item) :=
  match assembly.begun with
  | none => if starts then some content else none
  | some begun => if starts then none else some (begun ++ content)

def Assembly.close (assembly : Assembly Item) (ends : Bool) (begun : List Item) : Assembly Item :=
  if ends then ⟨assembly.complete ++ [begun], none⟩ else ⟨assembly.complete, some begun⟩

def Assembly.feed (assembly : Assembly Item) (piece : Piece Item) : Option (Assembly Item) :=
  (assembly.extend piece.starts piece.content).map (assembly.close piece.ends)

/-- Pieces in sequence. -/
def Assembly.feedAll (assembly : Assembly Item) (pieces : List (Piece Item)) : Option (Assembly Item) :=
  pieces.foldlM Assembly.feed assembly

@[simp] theorem feedAll_nil : assembly.feedAll [] = some assembly := rfl

@[simp] theorem feedAll_cons (piece : Piece Item) (pieces : List (Piece Item)) :
    assembly.feedAll (piece :: pieces) = (assembly.feed piece).bind fun next => next.feedAll pieces := rfl

@[simp] theorem feedAll_append (pieces further : List (Piece Item)) :
    assembly.feedAll (pieces ++ further) = (assembly.feedAll pieces).bind fun next => next.feedAll further :=
  foldlM_append

/-- A piece may be cut anywhere. -/
theorem feed_split : assembly.feed ⟨starts, ends, front ++ back⟩ =
    (assembly.feed ⟨starts, false, front⟩).bind fun next => next.feed ⟨false, ends, back⟩ := by
  obtain ⟨complete, begun⟩ := assembly
  cases begun <;> cases starts <;> simp [Assembly.feed, Assembly.extend, Assembly.close]

/-- Units that are complete stay so. -/
theorem complete_feed {piece : Piece Item} {next : Assembly Item} (fed : assembly.feed piece = some next) :
    assembly.complete <+: next.complete := by
  obtain ⟨begun, -, rfl⟩ := map_eq_some_iff.mp fed
  cases piece.ends <;> simp [Assembly.close]

theorem complete_feedAll {pieces : List (Piece Item)} {final : Assembly Item}
    (fed : assembly.feedAll pieces = some final) : assembly.complete <+: final.complete := by
  induction pieces generalizing assembly with
  | nil =>
    cases fed
    apply prefix_refl
  | cons piece pieces ih =>
    rw [feedAll_cons] at fed
    obtain ⟨next, isNext, further⟩ := bind_eq_some_iff.mp fed
    exact (complete_feed isNext).trans (ih further)

/-- The pieces of a block, from the flags of its first and of its last one. -/
def block (starts ends : Bool) : List (List Item) -> List (Piece Item)
  | [] => []
  | content :: contents =>
    match contents with
    | [] => [⟨starts, ends, content⟩]
    | _ :: _ => ⟨starts, true, content⟩ :: block true ends contents
termination_by structural contents => contents

theorem block_cons {content : List Item} {contents : List (List Item)} (more : contents ≠ []) :
    block starts ends (content :: contents) = ⟨starts, true, content⟩ :: block true ends contents := by
  obtain ⟨second, further, rfl⟩ := exists_cons_of_ne_nil more
  rfl

/-- The units that a block leaves complete or begun, when the first of them is what its first piece
makes of what had begun before. -/
def Assembly.closeAll (assembly : Assembly Item) (ends : Bool) (units : List (List Item)) : Assembly Item :=
  if ends then ⟨assembly.complete ++ units, none⟩ else ⟨assembly.complete ++ units.dropLast, units.getLast?⟩

theorem feedAll_block {first : List Item} {contents : List (List Item)} :
    assembly.feedAll (block starts ends (first :: contents)) =
      (assembly.extend starts first).map fun unit => assembly.closeAll ends (unit :: contents) := by
  induction contents generalizing assembly starts first with
  | nil =>
    cases extended : assembly.extend starts first with
    | none => simp [block, Assembly.feed, extended]
    | some unit => cases ends <;> simp [block, Assembly.feed, extended, Assembly.close, Assembly.closeAll]
  | cons second contents ih =>
    rw [block_cons (cons_ne_nil _ _), feedAll_cons, Assembly.feed]
    dsimp only
    cases assembly.extend starts first with
    | none => rfl
    | some unit =>
      rw [map_some, bind_some, ih]
      cases ends <;> simp [Assembly.extend, Assembly.close, Assembly.closeAll]

end Ns3.Semantics.Framing
