import Mathlib.Data.List.Induction

/-!
# Runs of an action-labelled program

A `System` is a program driven one action at a time: `step` is the effect of an action and `none`
when it is not enabled. `Run` keeps every state with the action taken there, and `Throughout` speaks
of each entry of a list with the ones before it. The induction over runs is stated once, as
`Run.invariant_of_guard` and, under an exact condition on the steps, `Run.always_iff`.
-/

namespace Ns3.Semantics

open List

universe u v

/-- A property of every entry of a list, given the entries before it. -/
def Throughout {Entry : Type u} (property : List Entry -> Entry -> Prop) (entries : List Entry) :
    Prop :=
  ∀ earlier entry later, entries = earlier ++ entry :: later -> property earlier entry

variable {Entry : Type u}

theorem throughout_nil (property : List Entry -> Entry -> Prop) : Throughout property [] := by
  intro earlier entry later split
  simp at split

theorem throughout_append {property : List Entry -> Entry -> Prop} {entries : List Entry} {last : Entry} :
    Throughout property (entries ++ [last]) ↔ Throughout property entries ∧ property entries last := by
  constructor
  · intro all
    refine ⟨fun earlier entry later split => ?_, all entries last [] rfl⟩
    exact all earlier entry (later ++ [last]) (by simp [split])
  · rintro ⟨all, atLast⟩ earlier entry later split
    cases later using reverseRecOn with
    | nil =>
      obtain ⟨rfl, same⟩ := append_inj' split rfl
      obtain rfl := singleton_inj.mp same
      exact atLast
    | append_singleton rest final =>
      rw [← cons_append, ← append_assoc] at split
      exact all earlier entry rest (append_inj' split rfl).1

theorem throughout_map {Image : Type v} {property : List Image -> Image -> Prop}
    (image : Entry -> Image) (entries : List Entry) :
    Throughout property (entries.map image) ↔
      Throughout (fun earlier entry => property (earlier.map image) (image entry)) entries := by
  induction entries using reverseRecOn with
  | nil => exact iff_of_true (throughout_nil _) (throughout_nil _)
  | append_singleton entries last ih =>
    rw [map_append, map_singleton, throughout_append, throughout_append, ih]

/-- A program with its initial states and a deterministic, possibly disabled
effect for each action. -/
structure System (State : Type u) (Action : Type v) where
  Initial : State -> Prop
  step : State -> Action -> Option State

namespace System

variable {State : Type u} {Action : Type v} {system : System State Action}

/-- A finite run, with the state before each action and the action itself. -/
inductive Run (system : System State Action) : List (State × Action) -> State -> Prop where
  | initial {state} (valid : system.Initial state) : Run system [] state
  | step {trace state action next} (prior : Run system trace state)
      (transition : system.step state action = some next) :
      Run system (trace ++ [(state, action)]) next

/-- The states some run ends in. -/
def Reachable (system : System State Action) (state : State) : Prop :=
  ∃ trace, system.Run trace state

variable {trace : List (State × Action)} {state final : State}

/-- An invariant that every guarded step preserves holds at the end of every
run whose steps all meet the guard. -/
theorem Run.invariant_of_guard (Inv : State -> Prop) (Guard : State -> Action -> Prop)
    (initial : ∀ state, system.Initial state -> Inv state)
    (preserved : ∀ {state action next}, Inv state -> Guard state action ->
      system.step state action = some next -> Inv next) (run : system.Run trace state)
    (guarded : ∀ entry ∈ trace, Guard entry.1 entry.2) : Inv state := by
  induction run with
  | initial valid => exact initial _ valid
  | step prior moves ih =>
    have priorGuarded := ih fun entry mem =>
      guarded entry (mem_append_left _ mem)
    exact preserved priorGuarded (guarded (_, _) (by simp)) moves

/-- If a step leads from a state with the property to one with the property
exactly when it meets the guard, then a run keeps the property throughout
exactly when all its steps meet the guard. The invariant the steps rely on may
itself depend on the property. -/
theorem Run.always_iff (Inv Always : State -> Prop) (Allowed Guard : State -> Action -> Prop)
    (initial : ∀ state, system.Initial state -> Inv state ∧ Always state)
    (stepwise : ∀ {state action next}, Inv state -> Always state -> Allowed state action ->
      system.step state action = some next ->
        (Always next ↔ Guard state action) ∧ (Always next -> Inv next)) (run : system.Run trace state)
    (allowed : ∀ entry ∈ trace, Allowed entry.1 entry.2) :
    ((∀ entry ∈ trace, Always entry.1) ∧ Always state) ↔ ∀ entry ∈ trace, Guard entry.1 entry.2 := by
  suffices both : (((∀ entry ∈ trace, Always entry.1) ∧ Always state) ↔ ∀ entry ∈ trace, Guard entry.1 entry.2) ∧
        ((∀ entry ∈ trace, Always entry.1) ∧ Always state -> Inv state) from both.1
  induction run with
  | initial valid => simp [(initial _ valid).2, (initial _ valid).1]
  | @step trace state action next prior moves ih =>
    obtain ⟨equivalent, invariant⟩ := ih fun entry mem =>
      allowed entry (mem_append_left _ mem)
    have last := fun always : (∀ entry ∈ trace, Always entry.1) ∧ Always state =>
      stepwise (invariant always) always.2 (allowed (state, action) (by simp)) moves
    simp only [forall_mem_append, forall_mem_singleton]
    rw [← equivalent]
    refine ⟨⟨?_, ?_⟩, fun ⟨before, after⟩ => (last before).2 after⟩
    · rintro ⟨before, after⟩
      exact ⟨before, (last before).1.mp after⟩
    · rintro ⟨before, guarded⟩
      exact ⟨before, (last before).1.mpr guarded⟩

/-- An invariant that every step preserves holds in every reachable state. -/
theorem Reachable.invariant (Inv : State -> Prop) (initial : ∀ state, system.Initial state -> Inv state)
    (preserved : ∀ {state action next}, Inv state ->
      system.step state action = some next -> Inv next) (reachable : system.Reachable state) : Inv state := by
  obtain ⟨trace, run⟩ := reachable
  exact run.invariant_of_guard Inv (fun _ _ => True) initial
    (fun holds _ moves => preserved holds moves) (fun _ _ => trivial)

variable {action : Action} {actions : List Action}

/-- One more step of a run that ends in a reachable state. -/
theorem Reachable.step {state next : State}
    (reachable : system.Reachable state) (moves : system.step state action = some next) :
    system.Reachable next := by
  obtain ⟨trace, run⟩ := reachable
  exact ⟨_, run.step moves⟩

/-- Every recorded step of a run starts where the run before it ended. -/
theorem Run.before {suffix : List (State × Action)} (run : system.Run (trace ++ (state, action) :: suffix) final) :
    system.Run trace state ∧ ∃ next, system.step state action = some next ∧
      system.Run (trace ++ [(state, action)]) next := by
  generalize whole : trace ++ (state, action) :: suffix = steps at run
  induction run generalizing suffix with
  | initial valid => simp at whole
  | @step steps current currentAction next prior moves ih =>
    cases suffix using reverseRecOn with
    | nil =>
      obtain ⟨rfl, last⟩ := append_inj' whole rfl
      obtain ⟨rfl, rfl⟩ := Prod.mk.inj (singleton_inj.mp last)
      exact ⟨prior, next, moves, prior.step moves⟩
    | append_singleton rest last =>
      rw [← cons_append, ← append_assoc] at whole
      exact ih (append_inj' whole rfl).1

/-- Execute a list of actions, stopping at the first one that is not enabled. -/
def exec (system : System State Action) : State -> List Action -> Option State
  | state, [] => some state
  | state, action :: rest => (system.step state action).bind fun next => system.exec next rest

/-- The steps of an execution, each with the state it starts from. -/
def steps (system : System State Action) : State -> List Action -> List (State × Action)
  | _, [] => []
  | state, action :: rest =>
    match system.step state action with
    | none => []
    | some next => (state, action) :: system.steps next rest

/-- The steps of an execution take its actions. -/
theorem action_mem_of_mem_steps {entry : State × Action}
    (mem : entry ∈ system.steps state actions) : entry.2 ∈ actions := by
  induction actions generalizing state with
  | nil => cases mem
  | cons action rest ih =>
    unfold steps at mem
    split at mem
    · cases mem
    · rcases mem_cons.mp mem with rfl | further
      · exact mem_cons_self
      · exact mem_cons_of_mem _ (ih further)

/-- Executing actions from the end of a run extends the run by those steps. -/
theorem Run.exec (run : system.Run trace state) (success : system.exec state actions = some final) :
    system.Run (trace ++ system.steps state actions) final := by
  induction actions generalizing trace state with
  | nil =>
    cases success
    simpa [steps] using run
  | cons action rest ih =>
    obtain ⟨next, moves, continued⟩ := Option.bind_eq_some_iff.mp success
    simpa [steps, moves] using ih (run.step moves) continued

/-- Executing actions from an initial state is a run. -/
theorem run_of_exec {state final : State} (valid : system.Initial state) {actions : List Action}
    (success : system.exec state actions = some final) : system.Run (system.steps state actions) final :=
  (Run.initial valid).exec success

/-- What execution reaches from an initial state is reachable. -/
theorem reachable_of_exec (valid : system.Initial state)
    (actions : List Action) (success : system.exec state actions = some final) : system.Reachable final :=
  ⟨_, run_of_exec valid success⟩

end System

end Ns3.Semantics
