import Mathlib.Order.Bounds.Basic
import Mathlib.Data.Nat.Find
import Mathlib.Data.List.Basic

/-!
# Breadth-first layers

A table of the nodes of a graph is extended round by round: the round of a length adds the nodes one
edge beyond those that have it. What the table holds when a round adds nothing are the least lengths
of the paths.
-/

namespace Ns3.Semantics.Layers

open List Nat

universe u v

variable {Node : Type u} {Entry : Type v} {State : Type v}

/-- The lengths of the paths from the seeds that do not go into a closed node. -/
inductive Reaches (edges : List (Node × Node)) (closed seed : Node -> Prop) (start : Nat) : Node -> Nat -> Prop where
  | seed {node} (isSeed : seed node) : Reaches edges closed seed start node start
  | beyond {last node length} (reached : Reaches edges closed seed start last length) (edge : (last, node) ∈ edges)
      (opened : ¬closed node) : Reaches edges closed seed start node (length + 1)

/-- Rounds until one adds nothing. -/
def rounds (round : Nat -> State -> State × Bool) : Nat -> Nat -> State -> Option State
  | 0, _, _ => none
  | fuel + 1, length, state =>
    if (round length state).2 then rounds round fuel (length + 1) (round length state).1
    else some (round length state).1

variable {round : Nat -> State -> State × Bool}

variable {fuel length : Nat} {state final : State} {entry : Entry}

theorem rounds_mono {more : Nat} (enough : fuel ≤ more)
    (result : rounds round fuel length state = some final) : rounds round more length state = some final := by
  induction fuel generalizing more length state with
  | zero => cases result
  | succ fuel ih =>
    obtain ⟨more, rfl⟩ := Nat.exists_eq_add_of_le' (Nat.le_trans (Nat.succ_le_succ (Nat.zero_le fuel)) enough)
    unfold rounds at result ⊢
    split at result
    · rename_i added
      rw [if_pos added]
      exact ih (Nat.le_of_succ_le_succ enough) result
    · rename_i none
      rwa [if_neg none]

/-- The rounds end where the last one adds nothing, and have what each of them keeps. -/
theorem rounds_last (Inv : Nat -> State -> Prop)
    (preserved : ∀ {length state}, Inv length state -> Inv (length + 1) (round length state).1)
    (holds : Inv length state)
    (result : rounds round fuel length state = some final) :
    ∃ last before, Inv last before ∧ round last before = (final, false) := by
  induction fuel generalizing length state with
  | zero => cases result
  | succ fuel ih =>
    unfold rounds at result
    split at result
    · exact ih (preserved holds) result
    · rename_i none
      exact ⟨length, state, holds, Prod.ext (Option.some.inj result) (Bool.eq_false_iff.mpr none)⟩

/-- The rounds end if each that adds something takes from a measure. -/
theorem rounds_isSome (measure : State -> Nat)
    (decreases : ∀ {length state}, (round length state).2 = true ->
      measure (round length state).1 < measure state) (enough : measure state < fuel) :
    ∃ final, rounds round fuel length state = some final := by
  induction fuel generalizing length state with
  | zero => exact absurd enough (not_lt_zero _)
  | succ fuel ih =>
    unfold rounds
    split
    · rename_i added
      apply ih
      exact lt_of_lt_of_le (decreases added) (le_of_lt_succ enough)
    · exact ⟨_, rfl⟩

/-- What the round of a length does: nodes without an entry get the one beyond a node with this
distance. -/
structure Expansion (edges : List (Node × Node)) (distance : Entry -> Nat)
    (beyond : Node -> Entry -> Entry) (length : Nat)
    (table next : Node -> Option Entry) (added : Bool) : Prop where
  keeps : ∀ {node entry}, table node = some entry -> next node = some entry
  justified : ∀ {node entry}, table node = none -> next node = some entry ->
    ∃ last before, (last, node) ∈ edges ∧ table last = some before ∧ distance before = length ∧
      entry = beyond node before
  complete : ∀ {last node before}, (last, node) ∈ edges -> table last = some before -> distance before = length ->
    (next node).isSome
  same : added = false -> next = table
  grows : added = true -> ∃ edge ∈ edges, table edge.2 = none ∧ (next edge.2).isSome

/-- The edges into nodes without an entry. -/
def unreached (edges : List (Node × Node)) (table : Node -> Option Entry) : Nat :=
  edges.countP fun edge => (table edge.2).isNone

variable {edges : List (Node × Node)} {closed seed : Node -> Prop} {start length : Nat} {distance : Entry -> Nat}
  {beyond : Node -> Entry -> Entry} {initial table next : Node -> Option Entry} {added : Bool} {node : Node}

theorem Expansion.unreached_lt (expansion : Expansion edges distance beyond length table next true) :
    unreached edges next < unreached edges table := by
  obtain ⟨edge, mem, isNone, isSome⟩ := expansion.grows rfl
  have implied : ∀ edge : Node × Node, (next edge.2).isNone = true -> (table edge.2).isNone = true := by
    intro edge without
    cases here : table edge.2 with
    | none => rfl
    | some entry =>
      rw [expansion.keeps here] at without
      cases without
  obtain ⟨before, after, rfl⟩ := append_of_mem mem
  unfold unreached
  rw [countP_append, countP_append, countP_cons_of_neg (by simpa [Option.isSome_iff_ne_none] using isSome),
    countP_cons_of_pos (by simp [isNone])]
  have early : before.countP (fun edge => (next edge.2).isNone) ≤ before.countP fun edge => (table edge.2).isNone :=
    countP_mono_left fun edge _ => implied edge
  have late : after.countP (fun edge => (next edge.2).isNone) ≤ after.countP fun edge => (table edge.2).isNone :=
    countP_mono_left fun edge _ => implied edge
  omega

/-- A table of the least lengths up to a bound. -/
structure Layered (edges : List (Node × Node)) (closed seed : Node -> Prop) (start : Nat) (distance : Entry -> Nat)
    (table : Node -> Option Entry) (length : Nat) : Prop where
  startLe : start ≤ length
  closedHas : ∀ {node}, closed node -> ∃ entry, table node = some entry ∧ distance entry < start
  exact : ∀ {node}, ¬closed node -> ∀ steps, (∃ entry, table node = some entry ∧ distance entry = steps) ↔
    IsLeast {steps | Reaches edges closed seed start node steps} steps ∧ steps ≤ length

/-- What a table has got beyond the initial one are entries one edge beyond others. -/
structure Grown (edges : List (Node × Node)) (beyond : Node -> Entry -> Entry) (initial table : Node -> Option Entry) :
    Prop where
  keeps : ∀ {node entry}, initial node = some entry -> table node = some entry
  parent : ∀ {node entry}, initial node = none -> table node = some entry ->
    ∃ last before, (last, node) ∈ edges ∧ table last = some before ∧ entry = beyond node before

theorem Grown.refl (edges : List (Node × Node)) (beyond : Node -> Entry -> Entry) (initial : Node -> Option Entry) :
    Grown edges beyond initial initial :=
  ⟨id, fun isNone isSome => by rw [isNone] at isSome; cases isSome⟩

theorem Grown.expand (grown : Grown edges beyond initial table)
    (expansion : Expansion edges distance beyond length table next added) : Grown edges beyond initial next := by
  refine ⟨fun isSome => expansion.keeps (grown.keeps isSome), fun {node entry} isNone isSome => ?_⟩
  cases here : table node with
  | none =>
    obtain ⟨last, before, edge, isBefore, -, isEntry⟩ := expansion.justified here isSome
    exact ⟨last, before, edge, expansion.keeps isBefore, isEntry⟩
  | some former =>
    obtain rfl := Option.some.inj ((expansion.keeps here).symm.trans isSome)
    obtain ⟨last, before, edge, isBefore, isEntry⟩ := grown.parent isNone here
    exact ⟨last, before, edge, expansion.keeps isBefore, isEntry⟩

theorem Reaches.opened (seedsOpen : ∀ {node}, seed node -> ¬closed node)
    (reaches : Reaches edges closed seed start node length) : ¬closed node := by
  cases reaches with
  | seed isSeed => exact seedsOpen isSeed
  | beyond _ _ opened => exact opened

theorem Reaches.exists_least (reaches : Reaches edges closed seed start node length) :
    ∃ least, IsLeast {steps | Reaches edges closed seed start node steps} least ∧ least ≤ length := by
  classical
  have some : ∃ steps, Reaches edges closed seed start node steps := ⟨length, reaches⟩
  exact ⟨Nat.find some, ⟨Nat.find_spec some, fun _ other => Nat.find_min' some other⟩, Nat.find_min' some reaches⟩

/-- Whatever is reached within the bound has an entry. -/
theorem Layered.entry_of_reaches (layered : Layered edges closed seed start distance table length)
    (opened : ¬closed node) {steps : Nat} (reaches : Reaches edges closed seed start node steps)
    (within : steps ≤ length) :
    ∃ entry, table node = some entry ∧ distance entry ≤ steps ∧
      IsLeast {steps | Reaches edges closed seed start node steps} (distance entry) := by
  obtain ⟨least, isLeast, le⟩ := reaches.exists_least
  obtain ⟨entry, isSome, rfl⟩ := (layered.exact opened least).mpr ⟨isLeast, le_trans le within⟩
  exact ⟨entry, isSome, le, isLeast⟩

theorem Layered.opened (layered : Layered edges closed seed start distance table length)
    (isSome : table node = some entry) (far : start ≤ distance entry) : ¬closed node := by
  intro isClosed
  obtain ⟨other, isOther, near⟩ := layered.closedHas isClosed
  cases isSome.symm.trans isOther
  omega

theorem Layered.expand (seedsOpen : ∀ {node}, seed node -> ¬closed node)
    (layered : Layered edges closed seed start distance table length)
    (distance_beyond : ∀ node entry, distance (beyond node entry) = distance entry + 1)
    (expansion : Expansion edges distance beyond length table next added) :
    Layered edges closed seed start distance next (length + 1) := by
  refine ⟨le_succ_of_le layered.startLe, fun isClosed => ?_, fun {node} opened steps => ⟨?_, ?_⟩⟩
  · obtain ⟨entry, isSome, near⟩ := layered.closedHas isClosed
    exact ⟨entry, expansion.keeps isSome, near⟩
  · rintro ⟨entry, isSome, rfl⟩
    cases here : table node with
    | some former =>
      obtain rfl := Option.some.inj ((expansion.keeps here).symm.trans isSome)
      obtain ⟨isLeast, le⟩ := (layered.exact opened _).mp ⟨former, here, rfl⟩
      exact ⟨isLeast, le_succ_of_le le⟩
    | none =>
      obtain ⟨last, before, edge, isBefore, isLength, rfl⟩ := expansion.justified here isSome
      rw [distance_beyond, isLength]
      have lastOpened := layered.opened isBefore (by rw [isLength]; exact layered.startLe)
      have reached := ((layered.exact lastOpened length).mp ⟨before, isBefore, isLength⟩).1.1
      refine ⟨⟨reached.beyond edge opened, fun other isOther => ?_⟩, le_refl _⟩
      by_contra less
      obtain ⟨entry, isEntry, -⟩ := layered.entry_of_reaches opened isOther (by omega)
      rw [here] at isEntry
      cases isEntry
  · rintro ⟨isLeast, le⟩
    by_cases within : steps ≤ length
    · obtain ⟨entry, isSome, isDistance⟩ := (layered.exact opened steps).mpr ⟨isLeast, within⟩
      exact ⟨entry, expansion.keeps isSome, isDistance⟩
    · obtain rfl : steps = length + 1 := by omega
      have without : table node = none := by
        cases here : table node with
        | none => rfl
        | some entry =>
          obtain ⟨other, le⟩ := (layered.exact opened _).mp ⟨entry, here, rfl⟩
          have same := isLeast.unique other
          omega
      cases isLeast.1 with
      | seed isSeed =>
        have startLe := layered.startLe
        omega
      | @beyond last _ _ reached edge _ =>
        obtain ⟨before, isBefore, near, lastLeast⟩ :=
          layered.entry_of_reaches (reached.opened seedsOpen) reached (le_refl _)
        have far := isLeast.2 (lastLeast.1.beyond edge opened)
        have isLength : distance before = length := by omega
        obtain ⟨entry, isEntry⟩ := Option.isSome_iff_exists.mp (expansion.complete edge isBefore isLength)
        obtain ⟨other, former, -, -, isOther, rfl⟩ := expansion.justified without isEntry
        exact ⟨_, isEntry, by rw [distance_beyond, isOther]⟩

/-- Where a round adds nothing, every node that is reached at all has its least length. -/
theorem Layered.complete (seedsOpen : ∀ {node}, seed node -> ¬closed node)
    (layered : Layered edges closed seed start distance table length)
    (expansion : Expansion edges distance beyond length table next false) (opened : ¬closed node) (steps : Nat) :
    (∃ entry, next node = some entry ∧ distance entry = steps) ↔
      IsLeast {steps | Reaches edges closed seed start node steps} steps := by
  have reachesAll : ∀ {node steps}, Reaches edges closed seed start node steps -> ∃ entry, table node = some entry := by
    intro node steps reaches
    induction reaches with
    | seed isSeed =>
      obtain ⟨entry, isSome, -⟩ := layered.entry_of_reaches (seedsOpen isSeed) (.seed isSeed) layered.startLe
      exact ⟨entry, isSome⟩
    | @beyond last node _ reached edge opened ih =>
      obtain ⟨before, isBefore⟩ := ih
      obtain ⟨isLeast, le⟩ := (layered.exact (reached.opened seedsOpen) _).mp ⟨before, isBefore, rfl⟩
      rcases lt_or_eq_of_le le with less | isLength
      · obtain ⟨entry, isSome, -⟩ := layered.entry_of_reaches opened (isLeast.1.beyond edge opened) less
        exact ⟨entry, isSome⟩
      · have isSome := expansion.complete edge isBefore isLength
        rw [expansion.same rfl] at isSome
        exact Option.isSome_iff_exists.mp isSome
  rw [expansion.same rfl, layered.exact opened]
  refine and_iff_left_of_imp fun isLeast => ?_
  obtain ⟨entry, isSome⟩ := reachesAll isLeast.1
  obtain ⟨other, le⟩ := (layered.exact opened _).mp ⟨entry, isSome, rfl⟩
  rwa [isLeast.unique other]

variable {round : Nat -> (Node -> Option Entry) -> (Node -> Option Entry) × Bool}

/-- Rounds that expand a table end, and if it is that of the seeds, they end in the table of the
least lengths. -/
theorem rounds_spec (distance_beyond : ∀ node entry, distance (beyond node entry) = distance entry + 1)
    (expands : ∀ length table,
      Expansion edges distance beyond length table (round length table).1 (round length table).2) :
    ∃ final, (∀ fuel, edges.length < fuel -> rounds round fuel start initial = some final) ∧
      Grown edges beyond initial final ∧
      ((∀ {node}, seed node -> ¬closed node) -> Layered edges closed seed start distance initial start ->
        ∀ node, ¬closed node -> ∀ steps, (∃ entry, final node = some entry ∧ distance entry = steps) ↔
          IsLeast {steps | Reaches edges closed seed start node steps} steps) := by
  have decreases : ∀ {length table}, (round length table).2 = true ->
      unreached edges (round length table).1 < unreached edges table := by
    intro length table added
    have expansion := expands length table
    rw [added] at expansion
    exact expansion.unreached_lt
  obtain ⟨final, isFinal⟩ := rounds_isSome (unreached edges) decreases (lt_succ_self (unreached edges initial))
  refine ⟨final, fun fuel enough => ?_, ?_, fun seedsOpen layered node opened => ?_⟩
  · exact rounds_mono (lt_of_le_of_lt countP_le_length enough) isFinal
  · obtain ⟨last, before, grown, isLast⟩ := rounds_last (fun _ table => Grown edges beyond initial table)
      (fun {length table} grown => grown.expand (expands length table)) (Grown.refl edges beyond initial) isFinal
    have expansion := expands last before
    rw [isLast] at expansion
    exact grown.expand expansion
  · obtain ⟨last, before, isLayered, isLast⟩ :=
      rounds_last (fun length table => Layered edges closed seed start distance table length)
        (fun {length table} holds => holds.expand seedsOpen distance_beyond (expands length table)) layered isFinal
    have expansion := expands last before
    rw [isLast] at expansion
    exact isLayered.complete seedsOpen expansion opened

/-- A property of the initial entries that goes from each to the one beyond it is one of all
entries. -/
theorem Grown.forall_entry (grown : Grown edges beyond initial table)
    (distance_beyond : ∀ node entry, distance (beyond node entry) = distance entry + 1) {property : Entry -> Prop}
    (base : ∀ {node entry}, initial node = some entry -> property entry)
    (step : ∀ node {entry}, property entry -> property (beyond node entry))
    (isSome : table node = some entry) : property entry := by
  induction isDistance : distance entry using Nat.strong_induction_on generalizing node entry with
  | _ steps ih =>
    cases here : initial node with
    | some former =>
      cases (grown.keeps here).symm.trans isSome
      exact base here
    | none =>
      obtain ⟨last, before, -, isBefore, rfl⟩ := grown.parent here isSome
      rw [distance_beyond] at isDistance
      exact step node (ih _ (by omega) isBefore rfl)

theorem Reaches.start_le (reaches : Reaches edges closed seed start node length) : start ≤ length := by
  induction reaches with
  | seed => exact le_refl start
  | beyond _ _ _ ih => exact le_succ_of_le ih

/-- Only the seeds are reached by the empty path. -/
theorem reaches_start : Reaches edges closed seed start node start ↔ seed node := by
  refine ⟨fun reaches => ?_, .seed⟩
  generalize isLength : start = length at reaches
  cases reaches with
  | seed isSeed => exact isSeed
  | beyond reached _ _ =>
    have le := reached.start_le
    omega

end Ns3.Semantics.Layers
