/-!
# Computations that are given some rounds

A loop that need not end is run for a number of rounds. `Outcome` keeps apart what is done, what
aborts and what would go on, and `Ends` says that the rounds were enough, with one rule for each way
to put computations together.
-/

namespace Ns3.Semantics

/-- What a computation leads to that is given so many rounds. -/
inductive Outcome (State : Type) where
  | done (state : State)
  /-- An assertion fails, or a null pointer is used. -/
  | aborted
  | unfinished
  deriving DecidableEq

namespace Outcome

variable {State Next : Type}

def ofOption : Option State -> Outcome State
  | some state => .done state
  | none => .aborted

def assert (condition : Prop) [Decidable condition] : Outcome Unit :=
  if condition then .done () else .aborted

def bind (outcome : Outcome State) (next : State -> Outcome Next) : Outcome Next :=
  match outcome with
  | .done state => next state
  | .aborted => .aborted
  | .unfinished => .unfinished

instance : Monad Outcome where
  pure := .done
  bind := bind

instance : LawfulMonad Outcome :=
  LawfulMonad.mk' Outcome (fun outcome => by cases outcome <;> rfl) (fun _ _ => rfl)
    (fun outcome _ _ => by cases outcome <;> rfl)

/-- The rounds were enough. -/
def Ends (outcome : Outcome State) : Prop :=
  outcome ≠ .unfinished

@[simp] theorem done_bind (state : State) (next : State -> Outcome Next) :
    (Outcome.done state >>= next) = next state := rfl

@[simp] theorem unfinished_bind (next : State -> Outcome Next) :
    ((Outcome.unfinished : Outcome State) >>= next) = .unfinished :=
  rfl

variable {outcome : Outcome State} {next : State -> Outcome Next}

theorem ends_done (state : State) : Ends (.done state) := by
  intro same
  cases same

theorem ends_aborted : Ends (.aborted : Outcome State) := by
  intro same
  cases same

theorem ends_pure (state : State) : Ends (pure state : Outcome State) :=
  ends_done state

theorem ends_ofOption (state : Option State) : Ends (ofOption state) := by
  cases state with
  | none => exact ends_aborted
  | some state => exact ends_done state

theorem ends_assert (condition : Prop) [Decidable condition] : Ends (assert condition) := by
  unfold assert
  split
  · exact ends_done ()
  · exact ends_aborted

/-- A computation ends if its parts do. -/
theorem ends_bind (ends : outcome.Ends)
    (nextEnds : ∀ state, outcome = .done state -> (next state).Ends) : Ends (outcome >>= next) := by
  cases outcome with
  | done state => exact nextEnds state rfl
  | aborted => exact ends_aborted
  | unfinished => exact absurd rfl ends

theorem ends_foldlM {Item : Type} {round : State -> Item -> Outcome State}
    (ends : ∀ state item, (round state item).Ends)
    (items : List Item) (state : State) : Ends (items.foldlM round state) := by
  induction items generalizing state with
  | nil => exact ends_pure state
  | cons item rest ih =>
    rw [List.foldlM_cons]
    exact ends_bind (ends state item) fun next _ => ih next

end Outcome

end Ns3.Semantics
