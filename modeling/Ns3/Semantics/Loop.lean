import Mathlib.Data.List.Basic

/-!
# Loops that can fail

A loop over items changes a state and may stop. `Along` says that each item meets a guard in the
state in which the loop reaches it; an invariant that guarded rounds keep holds after the loop.
-/

namespace Ns3.Semantics

universe u v

variable {State : Type u} {Item : Type v}

/-- Each item meets a guard in the state in which it is handled. -/
def Along (guard : State -> Item -> Prop) (handle : State -> Item -> Option State) : State -> List Item -> Prop
  | _, [] => True
  | state, item :: rest =>
    guard state item ∧ ∀ next, handle state item = some next -> Along guard handle next rest

variable {guard : State -> Item -> Prop} {handle : State -> Item -> Option State} {items : List Item} {state : State}

/-- A loop whose guarded rounds succeed and keep an invariant does so as a whole. -/
theorem Along.foldlM (Inv : State -> Prop) (round : ∀ {state item}, item ∈ items -> Inv state -> guard state item ->
      ∃ next, handle state item = some next ∧ Inv next)
    (along : Along guard handle state items) (inv : Inv state) :
    ∃ final, items.foldlM handle state = some final ∧ Inv final := by
  induction items generalizing state with
  | nil => exact ⟨state, rfl, inv⟩
  | cons item rest ih =>
    obtain ⟨guarded, continued⟩ := along
    obtain ⟨next, isNext, kept⟩ := round List.mem_cons_self inv guarded
    obtain ⟨final, isFinal, holds⟩ := ih (fun mem => round (List.mem_cons_of_mem _ mem)) (continued next isNext) kept
    refine ⟨final, ?_, holds⟩
    rw [List.foldlM_cons, isNext]
    exact isFinal

/-- A loop whose rounds all succeed and keep an invariant needs no guard. -/
theorem foldlM_invariant (Inv : State -> Prop)
    (round : ∀ {state item}, item ∈ items -> Inv state -> ∃ next, handle state item = some next ∧ Inv next)
    (inv : Inv state) : ∃ final, items.foldlM handle state = some final ∧ Inv final := by
  have unguarded : ∀ state, Along (fun _ _ => True) handle state items := by
    clear round
    induction items with
    | nil => exact fun _ => trivial
    | cons item rest ih => exact fun _ => ⟨trivial, fun next _ => ih next⟩
  exact (unguarded state).foldlM Inv (fun mem kept _ => round mem kept) inv

end Ns3.Semantics
