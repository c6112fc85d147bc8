import Mathlib.Data.List.Sort
import Mathlib.Data.List.Induction

/-!
# Fragments received

The receivers of IPv4 and of IPv6 keep the fragments of a datagram in a list ordered by offset
and one flag for all of them: `AddFragment` overwrites it when it adds behind all others. The flag
is clear exactly if the fragment that came last among the furthest ones is a last fragment.
-/

namespace Ns3.Internet

open List

/-- A fragment as it arrives: what it carries, from which offset on, and whether more follow. -/
structure Fragment (Octet : Type) where
  data : List Octet
  offset : Nat
  moreFragment : Bool
  deriving DecidableEq

structure Fragments (Octet : Type) where
  moreFragment : Bool
  fragments : List (List Octet × Nat)
  deriving DecidableEq

namespace Fragments

variable {Octet : Type} {fragment other : Fragment Octet} {received : List (Fragment Octet)} {payload : List Octet}

def new : Fragments Octet where
  moreFragment := false
  fragments := []

/-- Insert in front of the first fragment with a greater offset. -/
def insert (fragment : List Octet × Nat) : List (List Octet × Nat) -> List (List Octet × Nat)
  | [] => [fragment]
  | it :: rest => if it.2 > fragment.2 then fragment :: it :: rest else it :: insert fragment rest

/-- The flag is that of a fragment added at the end. -/
def addFragment (fragments : Fragments Octet) (fragment : Fragment Octet) : Fragments Octet where
  moreFragment :=
    if fragments.fragments.any fun it => it.2 > fragment.offset then fragments.moreFragment
    else fragment.moreFragment
  fragments := insert (fragment.data, fragment.offset) fragments.fragments

/-- The fragments after some have arrived. -/
def gather (received : List (Fragment Octet)) : Fragments Octet :=
  received.foldl addFragment new

theorem gather_append : gather (received ++ [fragment]) = (gather received).addFragment fragment := by
  rw [gather, foldl_append]
  rfl

theorem insert_perm (fragment : List Octet × Nat) (fragments : List (List Octet × Nat)) :
    (insert fragment fragments).Perm (fragment :: fragments) := by
  induction fragments with
  | nil => exact List.Perm.refl _
  | cons it rest ih =>
    rw [insert]
    split
    · exact List.Perm.refl _
    · exact (ih.cons it).trans (List.Perm.swap fragment it rest)

theorem insert_sorted {fragments : List (List Octet × Nat)} (fragment : List Octet × Nat)
    (sorted : fragments.Pairwise fun first second => first.2 ≤ second.2) :
    (insert fragment fragments).Pairwise fun first second => first.2 ≤ second.2 := by
  induction fragments with
  | nil => exact pairwise_singleton _ _
  | cons it rest ih =>
    obtain ⟨least, sortedRest⟩ := pairwise_cons.mp sorted
    rw [insert]
    split
    next behind =>
      refine pairwise_cons.mpr ⟨fun later mem => ?_, sorted⟩
      rcases mem_cons.mp mem with rfl | inRest
      · exact Nat.le_of_lt behind
      · exact Nat.le_trans (Nat.le_of_lt behind) (least later inRest)
    next inFront =>
      refine pairwise_cons.mpr ⟨fun later mem => ?_, ih sortedRest⟩
      rcases mem_cons.mp ((insert_perm fragment rest).mem_iff.mp mem) with rfl | inRest
      · exact Nat.le_of_not_gt inFront
      · exact least later inRest

theorem gather_perm (received : List (Fragment Octet)) :
    (gather received).fragments.Perm (received.map fun fragment => (fragment.data, fragment.offset)) := by
  induction received using reverseRecOn with
  | nil => exact List.Perm.refl _
  | append_singleton received last ih =>
    rw [gather_append, map_append]
    refine (insert_perm _ _).trans ((ih.cons _).trans ?_)
    exact (perm_append_singleton _ _).symm

theorem gather_sorted (received : List (Fragment Octet)) :
    (gather received).fragments.Pairwise fun first second => first.2 ≤ second.2 := by
  induction received using reverseRecOn with
  | nil => exact List.Pairwise.nil
  | append_singleton received last ih =>
    rw [gather_append]
    exact insert_sorted _ ih

theorem mem_gather {it : List Octet × Nat} :
    it ∈ (gather received).fragments ↔ ∃ fragment ∈ received, (fragment.data, fragment.offset) = it := by
  rw [(gather_perm received).mem_iff, List.mem_map]

/-- Of the fragments with the greatest offset, the one that came last is a last fragment. -/
def LastDecides (received : List (Fragment Octet)) : Prop :=
  ∃ before last after, received = before ++ last :: after ∧ last.moreFragment = false ∧
    (∀ other ∈ before, other.offset ≤ last.offset) ∧ ∀ other ∈ after, other.offset < last.offset

theorem lastDecides_append_of_less (isOther : other ∈ received) (less : fragment.offset < other.offset) :
    LastDecides (received ++ [fragment]) ↔ LastDecides received := by
  constructor
  · rintro ⟨before, last, after, split, isLast, left, right⟩
    cases after using reverseRecOn with
    | nil =>
      obtain ⟨rfl, same⟩ := append_inj' split rfl
      obtain rfl := singleton_inj.mp same
      exact absurd (left other isOther) (Nat.not_le_of_gt less)
    | append_singleton after final =>
      rw [← cons_append, ← append_assoc] at split
      obtain ⟨same, -⟩ := append_inj' split rfl
      exact ⟨before, last, after, same, isLast, left, fun other mem =>
        right other (mem_append_left _ mem)⟩
  · rintro ⟨before, last, after, rfl, isLast, left, right⟩
    refine ⟨before, last, after ++ [fragment], by simp, isLast, left, ?_⟩
    have greatest : other.offset ≤ last.offset := by
      rcases mem_append.mp isOther with inFront | rest
      · exact left other inFront
      · rcases mem_cons.mp rest with rfl | behind
        · exact Nat.le_refl _
        · exact Nat.le_of_lt (right other behind)
    intro later mem
    rcases mem_append.mp mem with older | new
    · exact right later older
    · rw [mem_singleton.mp new]
      exact Nat.lt_of_lt_of_le less greatest

theorem lastDecides_append_of_greatest (greatest : ∀ other ∈ received, other.offset ≤ fragment.offset) :
    LastDecides (received ++ [fragment]) ↔ fragment.moreFragment = false := by
  constructor
  · rintro ⟨before, last, after, split, isLast, left, right⟩
    cases after using reverseRecOn with
    | nil =>
      obtain ⟨-, same⟩ := append_inj' split rfl
      rw [singleton_inj.mp same]
      exact isLast
    | append_singleton after final =>
      have isFinal := right final (mem_append_right _ mem_cons_self)
      rw [← cons_append, ← append_assoc] at split
      obtain ⟨rfl, same⟩ := append_inj' split rfl
      obtain rfl := singleton_inj.mp same
      have notLess := greatest last (mem_append_right _ mem_cons_self)
      exact absurd isFinal (Nat.not_lt_of_ge notLess)
  · intro isLast
    exact ⟨received, fragment, [], rfl, isLast, greatest, fun _ none => nomatch none⟩

theorem gather_moreFragment (some : received ≠ []) :
    (gather received).moreFragment = false ↔ LastDecides received := by
  induction received using reverseRecOn with
  | nil => exact absurd rfl some
  | append_singleton received last ih =>
    rw [gather_append, addFragment]
    by_cases behind : (gather received).fragments.any fun it => it.2 > last.offset
    · obtain ⟨it, mem, less⟩ := List.any_eq_true.mp behind
      obtain ⟨other, isOther, rfl⟩ := mem_gather.mp mem
      have nonempty : received ≠ [] := ne_nil_of_mem isOther
      rw [if_pos behind, ih nonempty, lastDecides_append_of_less isOther (of_decide_eq_true less)]
    · rw [if_neg behind]
      refine (lastDecides_append_of_greatest fun other isOther => ?_).symm
      apply Nat.le_of_not_gt
      intro less
      exact behind (List.any_eq_true.mpr ⟨_, mem_gather.mpr ⟨other, isOther, rfl⟩, decide_eq_true less⟩)

/-- What a fragment of a payload carries. -/
structure PartOf (payload : List Octet) (fragment : Fragment Octet) : Prop where
  within : fragment.offset + fragment.data.length ≤ payload.length
  data : fragment.data = (payload.drop fragment.offset).take fragment.data.length
  last : fragment.moreFragment = false ↔ fragment.offset + fragment.data.length = payload.length

/-- A fragment carries the octet at a position. -/
def Covers (fragment : Fragment Octet) (position : Nat) : Prop :=
  fragment.offset ≤ position ∧ position < fragment.offset + fragment.data.length

/-- Every octet has been received, and a last fragment. -/
def Complete (payload : List Octet) (received : List (Fragment Octet)) : Prop :=
  (∀ position, position < payload.length -> ∃ fragment ∈ received, Covers fragment position) ∧
    ∃ fragment ∈ received, fragment.moreFragment = false

theorem Complete.ne_nil (complete : Complete payload received) : received ≠ [] := by
  obtain ⟨fragment, mem, -⟩ := complete.2
  exact ne_nil_of_mem mem

theorem Complete.mono {more : List (Fragment Octet)} (complete : Complete payload received)
    (subset : received ⊆ more) : Complete payload more := by
  refine ⟨fun position bound => ?_, ?_⟩
  · obtain ⟨fragment, mem, covers⟩ := complete.1 position bound
    exact ⟨fragment, subset mem, covers⟩
  · obtain ⟨fragment, mem, isLast⟩ := complete.2
    exact ⟨fragment, subset mem, isLast⟩

end Fragments

end Ns3.Internet
