import Mathlib.Data.Finset.Card

/-!
# Collecting reports by rounds

A collector gathers one report from each participant and hands all over as one batch. A new report
under a key discards what the key held. Rounds only mark time.

A `History` lists what happened, newest first, and determines by recursion the round in force, what
is held, and which keys still hold a report of an earlier round (`carried`). `fresh_iff` relates
them.
-/

namespace Ns3.Semantics.Collector

open List

/-- What can happen to a collector with keys `κ`, reported items `ι` and rounds `ρ`. -/
inductive Event (κ ι ρ : Type) where
  | opened (round : ρ)
  | reported (key : κ) (items : List ι) (kept : Bool)
  | handedOver

/-- Everything that happened so far, newest first. -/
abbrev History (κ ι ρ : Type) := List (Event κ ι ρ)

variable {κ ι ρ : Type}

/-- The round in force, `start` before the first one was opened. -/
def round (start : ρ) : History κ ι ρ -> ρ
  | [] => start
  | .opened current :: _ => current
  | .reported _ _ _ :: past => round start past
  | .handedOver :: past => round start past

/-- What each key holds. A report that is not kept still empties its key. -/
def held [DecidableEq κ] : History κ ι ρ -> κ -> Option (List ι)
  | [] => fun _ => none
  | .opened _ :: past => held past
  | .reported key items kept :: past => fun other =>
    if other = key then
      if kept then some items else (held past key).map fun _ => []
    else
      held past other
  | .handedOver :: _ => fun _ => none

/-- The keys heard of since the round in force was opened. Opening it again does
not forget them. -/
def reporters [DecidableEq ρ] (start : ρ) : History κ ι ρ -> List κ
  | [] => []
  | .opened current :: past => if current = round start past then reporters start past else []
  | .reported key _ _ :: past => key :: reporters start past
  | .handedOver :: past => reporters start past

/-- The keys that held items when the round in force replaced another one, and
were neither heard of nor handed over since. -/
def carried [DecidableEq κ] [DecidableEq ρ] (start : ρ) : History κ ι ρ -> κ -> Prop
  | [] => fun _ => False
  | .opened current :: past => fun key =>
    if current = round start past then carried start past key
    else ∃ items, held past key = some items ∧ items ≠ []
  | .reported key _ _ :: past => fun other => other ≠ key ∧ carried start past other
  | .handedOver :: _ => fun _ => False

/-- Rounds never go back, and every kept item is stamped with the round in
which it was reported. -/
def Stamped [LE ρ] (stamp : ι -> ρ) (start : ρ) : History κ ι ρ -> Prop
  | [] => True
  | .opened current :: past => round start past ≤ current ∧ Stamped stamp start past
  | .reported _ items _ :: past =>
    (∀ item ∈ items, stamp item = round start past) ∧ Stamped stamp start past
  | .handedOver :: past => Stamped stamp start past

/-- Every round is opened by a collector that holds nothing. -/
def OpenedEmpty [DecidableEq κ] : History κ ι ρ -> Prop
  | [] => True
  | .opened _ :: past => (∀ key, held past key = none) ∧ OpenedEmpty past
  | .reported _ _ _ :: past => OpenedEmpty past
  | .handedOver :: past => OpenedEmpty past

/-- A part of the past is stamped as the whole history is. -/
theorem Stamped.of_append [LE ρ] {stamp : ι -> ρ} {start : ρ} {recent past : History κ ι ρ}
    (stamped : Stamped stamp start (recent ++ past)) : Stamped stamp start past := by
  induction recent with
  | nil => exact stamped
  | cons event recent ih =>
    cases event with
    | opened current => exact ih stamped.2
    | reported reporter reportedItems kept => exact ih stamped.2
    | handedOver => exact ih stamped

variable [DecidableEq κ]

section Stamps

variable [PartialOrder ρ] {stamp : ι -> ρ} {start : ρ} {history : History κ ι ρ} {key : κ}

section

variable (stamped : Stamped stamp start history)
include stamped

/-- No held item is stamped with a later round than the one in force. -/
theorem stamp_le_round {items : List ι} (holds : held history key = some items) :
    ∀ item ∈ items, stamp item ≤ round start history := by
  induction history generalizing items with
  | nil => simp [held] at holds
  | cons event past ih =>
    cases event with
    | opened current =>
      intro item mem
      exact le_trans (ih stamped.2 holds item mem) stamped.1
    | reported reporter reportedItems kept =>
      simp only [held] at holds
      split at holds
      · next same =>
        split at holds
        · cases holds
          exact fun item mem => (stamped.1 item mem).le
        · obtain ⟨_, _, rfl⟩ := Option.map_eq_some_iff.mp holds
          simp
      · exact ih stamped.2 holds
    | handedOver => simp [held] at holds

variable [DecidableEq ρ]

/-- What a carried key holds was reported in an earlier round. -/
theorem stale_of_carried (left : carried start history key) :
    ∃ items, held history key = some items ∧ ∃ item ∈ items, stamp item ≠ round start history := by
  induction history with
  | nil => exact left.elim
  | cons event past ih =>
    cases event with
    | opened current =>
      simp only [carried] at left
      split at left
      · next same =>
        simpa only [held, round, same] using ih stamped.2 left
      · next changed =>
        obtain ⟨items, holds, nonempty⟩ := left
        obtain ⟨item, mem⟩ := exists_mem_of_ne_nil items nonempty
        refine ⟨items, holds, item, mem, fun fresh => ?_⟩
        have bound := stamp_le_round stamped.2 holds item mem
        rw [fresh] at bound
        exact changed (le_antisymm bound stamped.1)
    | reported reporter reportedItems kept =>
      obtain ⟨other, left⟩ := left
      simpa only [held, round, other, if_false] using ih stamped.2 left
    | handedOver => exact left.elim

/-- A key that is not carried holds items of the round in force only. -/
theorem fresh_of_not_carried (clear : ¬ carried start history key) {items : List ι}
    (holds : held history key = some items) : ∀ item ∈ items, stamp item = round start history := by
  induction history generalizing items with
  | nil => simp [held] at holds
  | cons event past ih =>
    cases event with
    | opened current =>
      simp only [carried] at clear
      split at clear
      · next same =>
        simpa only [round, same] using ih stamped.2 clear holds
      · next changed =>
        have empty : items = [] := by
          by_contra nonempty
          exact clear ⟨items, holds, nonempty⟩
        simp [empty]
    | reported reporter reportedItems kept =>
      simp only [held] at holds
      split at holds
      · next same =>
        split at holds
        · cases holds
          exact stamped.1
        · obtain ⟨_, _, rfl⟩ := Option.map_eq_some_iff.mp holds
          simp
      · next other =>
        exact ih stamped.2 (fun left => clear ⟨other, left⟩) holds
    | handedOver => simp [held] at holds

/-- A key holds items of the round in force only, exactly when it is not carried
over from an earlier round. -/
theorem fresh_iff (key : κ) : (∀ items, held history key = some items ->
      ∀ item ∈ items, stamp item = round start history) ↔
    ¬ carried start history key := by
  constructor
  · intro fresh left
    obtain ⟨items, holds, item, mem, stale⟩ := stale_of_carried stamped left
    exact stale (fresh items holds item mem)
  · intro clear items holds
    exact fresh_of_not_carried stamped clear holds

end

end Stamps

/-- The newest report under a key, with whether it was kept. -/
def newestReport (key : κ) : History κ ι ρ -> Option (List ι × Bool)
  | [] => none
  | .opened _ :: past => newestReport key past
  | .reported reporter items kept :: past =>
    if reporter = key then some (items, kept) else newestReport key past
  | .handedOver :: past => newestReport key past

/-- Until the next batch a key that was reported under holds what its newest
report left: its own items, or nothing if it was not kept. -/
theorem held_of_reported {recent : History κ ι ρ} (noBatch : .handedOver ∉ recent)
    (past : History κ ι ρ) (key : κ) (items : List ι) :
    held (recent ++ .reported key items true :: past) key = some (match newestReport key recent with
        | none => items
        | some (again, kept) => if kept then again else []) := by
  induction recent with
  | nil => simp [held, newestReport]
  | cons event recent ih =>
    simp only [mem_cons, not_or] at noBatch
    have rest := ih noBatch.2
    cases event with
    | opened current => exact rest
    | reported reporter again kept =>
      by_cases same : reporter = key
      · subst same
        cases kept <;> simp [held, newestReport, rest]
      · simpa only [cons_append, held, newestReport, same, Ne.symm same, if_false] using rest
    | handedOver => exact absurd rfl noBatch.1

/-- A key holds something only if it was reported under. -/
theorem reported_of_held {history : History κ ι ρ} {key : κ} {items : List ι}
    (holds : held history key = some items) :
    ∃ reportedItems kept, .reported key reportedItems kept ∈ history := by
  induction history generalizing items with
  | nil => simp [held] at holds
  | cons event past ih =>
    cases event with
    | opened current =>
      obtain ⟨reportedItems, kept, mem⟩ := ih holds
      exact ⟨reportedItems, kept, mem_cons_of_mem _ mem⟩
    | reported reporter reportedItems kept =>
      simp only [held] at holds
      split at holds
      · next same => exact ⟨reportedItems, kept, same ▸ mem_cons_self⟩
      · obtain ⟨olderItems, olderKept, mem⟩ := ih holds
        exact ⟨olderItems, olderKept, mem_cons_of_mem _ mem⟩
    | handedOver => simp [held] at holds

end Ns3.Semantics.Collector
