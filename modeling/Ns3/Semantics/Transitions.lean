import Mathlib.Data.List.Basic

/-!
# Runs of a program with choices

Where what an action does also depends on choices that are not ours, a step relates a state to each
of the states the action may lead to. `Transitions.Run` keeps the states before the actions of a
run, and `Run.final_iff` is the rule for what holds at the end exactly when every step has met a
condition.
-/

namespace Ns3.Semantics

open List

universe u v

structure Transitions (State : Type u) (Action : Type v) where
  Initial : State -> Prop
  Step : State -> Action -> State -> Prop

namespace Transitions

variable {State : Type u} {Action : Type v} {transitions : Transitions State Action}

/-- A finite run, with the state before each action and the action itself. -/
inductive Run (transitions : Transitions State Action) : List (State × Action) -> State -> Prop where
  | initial {state} (valid : transitions.Initial state) : Run transitions [] state
  | step {trace state action next} (prior : Run transitions trace state) (step : transitions.Step state action next) :
      Run transitions (trace ++ [(state, action)]) next

variable {trace : List (State × Action)} {state : State}

theorem Run.invariant (Inv : State -> Prop) (initial : ∀ state, transitions.Initial state -> Inv state)
    (preserved : ∀ {state action next}, Inv state -> transitions.Step state action next -> Inv next)
    (run : transitions.Run trace state) : Inv state := by
  induction run with
  | initial valid => exact initial _ valid
  | step prior step ih => exact preserved ih step

/-- A run goes on as a function says that the actions do. -/
theorem Run.perform {perform : State -> Action -> Option State}
    (sound : ∀ {state action next}, perform state action = some next -> transitions.Step state action next)
    {actions : List Action} {final : State} (run : transitions.Run trace state)
    (performed : actions.foldlM perform state = some final) : ∃ trace, transitions.Run trace final := by
  induction actions generalizing trace state with
  | nil =>
    cases performed
    exact ⟨trace, run⟩
  | cons action actions ih =>
    rw [foldlM_cons] at performed
    obtain ⟨next, isNext, performed⟩ := Option.bind_eq_some_iff.1 performed
    exact ih (run.step (sound isNext)) performed

/-- What every step that meets the guard preserves holds at the end of a run whose steps all meet
it. -/
theorem Run.guarded (Inv : State -> Prop) (Guard : State -> Action -> Prop)
    (initial : ∀ state, transitions.Initial state -> Inv state)
    (preserved : ∀ {state action next}, Inv state -> Guard state action ->
      transitions.Step state action next -> Inv next) (run : transitions.Run trace state)
    (guarded : ∀ entry ∈ trace, Guard entry.1 entry.2) : Inv state := by
  induction run with
  | initial valid => exact initial _ valid
  | @step trace state action next prior step ih =>
    have before : ∀ entry ∈ trace, Guard entry.1 entry.2 :=
      fun entry mem => guarded entry (mem_append_left _ mem)
    have last : Guard state action := guarded (state, action) (mem_append_right _ (mem_singleton_self _))
    exact preserved (ih before) last step

/-- What each step keeps exactly when it meets the guard, and no step brings back, holds at the end
of exactly the runs whose steps all meet the guard. -/
theorem Run.final_iff (Inv Holds : State -> Prop) (Guard : State -> Action -> Prop)
    (initial : ∀ state, transitions.Initial state -> Inv state ∧ Holds state)
    (preserved : ∀ {state action next}, Inv state -> transitions.Step state action next -> Inv next)
    (stepwise : ∀ {state action next}, Inv state -> transitions.Step state action next ->
      (Holds next ↔ Holds state ∧ Guard state action)) (run : transitions.Run trace state) :
    Holds state ↔ ∀ entry ∈ trace, Guard entry.1 entry.2 := by
  induction run with
  | initial valid => exact iff_of_true (initial _ valid).2 fun entry mem => nomatch mem
  | step prior step ih =>
    have invariant := prior.invariant Inv (fun state valid => (initial state valid).1) preserved
    rw [stepwise invariant step, ih, forall_mem_append, forall_mem_singleton]

end Transitions

end Ns3.Semantics
