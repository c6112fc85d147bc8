import Ns3.Semantics.Run

/-!
# Instances that share their state

Several instances of a program run one at a time on one state. What an instance puts out depends on
the others unless their runs are silent: it cannot tell the state from before. `Unwinding` names
what has to be shown of single runs; `Unwinding.outputsOf_alone` concludes that an interleaving
gives each its own runs alone.
-/

namespace Ns3.Semantics.Sharing

open List

universe u v w x

variable {State : Type u} {Instance : Type v} {Action : Type w} {Output : Type x}

/-- The state after some runs of any instances. -/
def after (run : Action -> State -> State × Output) (state : State) (actions : List (Instance × Action)) : State :=
  actions.foldl (fun current entry => (run entry.2 current).1) state

variable [DecidableEq Instance]

/-- What the runs of one instance put out, in an interleaving with others. -/
def outputsOf (run : Action -> State -> State × Output) (observer : Instance) :
    State -> List (Instance × Action) -> List Output
  | _, [] => []
  | state, (owner, action) :: rest =>
    if owner = observer then
      (run action state).2 :: outputsOf run observer (run action state).1 rest
    else
      outputsOf run observer (run action state).1 rest

/-- The runs of one instance, without those of the others. -/
def alone (observer : Instance) (actions : List (Instance × Action)) : List (Instance × Action) :=
  actions.filter fun entry => entry.1 = observer

/-- An equivalence of states for an instance: its own runs put out the same from
equivalent states and keep them equivalent, and silent runs of the others lead to
an equivalent state. -/
structure Unwinding (run : Action -> State -> State × Output) (Same : State -> State -> Prop)
    (Own : Action -> Prop) (Silent : State -> Action -> Prop) : Prop where
  trans : ∀ {first second third}, Same first second -> Same second third -> Same first third
  output : ∀ {left right action}, Own action -> Same left right -> (run action left).2 = (run action right).2
  consistent : ∀ {left right action}, Own action -> Same left right -> Same (run action left).1 (run action right).1
  silent : ∀ {state action}, Silent state action -> Same (run action state).1 state

/-- If all runs of the other instances are silent, an instance puts out what it
would put out alone. -/
theorem Unwinding.outputsOf_alone {run : Action -> State -> State × Output}
    {Same : State -> State -> Prop} {Own : Action -> Prop} {Silent : State -> Action -> Prop}
    (unwinding : Unwinding run Same Own Silent) {observer : Instance}
    {actions : List (Instance × Action)} {left right : State} (same : Same left right)
    (own : ∀ entry ∈ actions, entry.1 = observer -> Own entry.2)
    (silent : Throughout (fun earlier entry => entry.1 ≠ observer ->
      Silent (after run left earlier) entry.2) actions) :
    outputsOf run observer left actions = outputsOf run observer right (alone observer actions) := by
  induction actions generalizing left right with
  | nil => rfl
  | cons entry rest ih =>
    obtain ⟨owner, action⟩ := entry
    have ownRest := fun other mem => own other (mem_cons_of_mem _ mem)
    have silentRest : Throughout (fun earlier entry => entry.1 ≠ observer ->
        Silent (after run (run action left).1 earlier) entry.2) rest := by
      rintro earlier last later rfl
      exact silent ((owner, action) :: earlier) last later rfl
    by_cases its : owner = observer
    · have isOwn := own (owner, action) mem_cons_self its
      simp only [outputsOf, alone, filter_cons, its, decide_true, if_true]
      rw [unwinding.output isOwn same]
      exact congrArg _ (ih (unwinding.consistent isOwn same) ownRest silentRest)
    · have isSilent := silent [] (owner, action) rest rfl its
      simp only [outputsOf, alone, filter_cons, its, decide_false, if_false]
      exact ih (unwinding.trans (unwinding.silent isSilent) same) ownRest silentRest

end Ns3.Semantics.Sharing
