import Ns3.Semantics.Run

/-!
# Stopwatches

A stopwatch runs while the same candidate is chosen at look after look, and fires once that has
lasted. A missed look leaves it alone. `continuous_iff` says when a stopwatch speaks for an
uninterrupted stretch of looks in one context: when a look that breaks the stretch finds it in a
state that restarting would not change.
-/

namespace Ns3.Semantics

open List

universe u v w

namespace Stopwatch

variable {Candidate : Type u} {Context : Type v} {Time : Type w}

/-- What one look shows: nothing because nobody looked, no candidate, or a
candidate and the context it was chosen in. -/
inductive Sighting (Candidate : Type u) (Context : Type v) where
  | missed
  | nothing
  | chosen (candidate : Candidate) (context : Context)
  deriving DecidableEq

namespace Sighting

/-- The context a candidate was chosen in. -/
def context? : Sighting Candidate Context -> Option Context
  | chosen _ context => some context
  | _ => none

end Sighting

/-- A look, its instant, and how long a candidate has to stay chosen. -/
structure Look (Candidate : Type u) (Context : Type v) (Time : Type w) where
  now : Time
  limit : Time
  sighting : Sighting Candidate Context

/-- The candidate of a running stopwatch and the instant it was started at. -/
abbrev Reading (Candidate : Type u) (Time : Type w) := Option (Candidate × Time)

/-- The candidate stayed chosen in one context from `start` on, at every look. -/
def Held (candidate : Candidate) (context : Context) (start : Time)
    (looks : List (Look Candidate Context Time)) : Prop :=
  ∃ earlier first later, looks = earlier ++ first :: later ∧ first.now = start ∧
    ∀ look ∈ first :: later, look.sighting = .chosen candidate context

variable {candidate : Candidate} {context : Context} {looks : List (Look Candidate Context Time)}
  {look : Look Candidate Context Time}

theorem Held.single (sighting : look.sighting = .chosen candidate context) :
    Held candidate context look.now (looks ++ [look]) :=
  ⟨looks, look, [], rfl, rfl, by simpa using sighting⟩

variable {start : Time}

theorem Held.append (held : Held candidate context start looks)
    (sighting : look.sighting = .chosen candidate context) :
    Held candidate context start (looks ++ [look]) := by
  obtain ⟨earlier, first, later, rfl, started, stayed⟩ := held
  refine ⟨earlier, first, later ++ [look], by simp, started, ?_⟩
  simpa [or_imp, forall_and] using ⟨stayed first (by simp), fun other mem =>
    stayed other (by simp [mem]), sighting⟩

/-- A stretch that lasts is one that lasted before, or that just began. -/
theorem Held.of_append (held : Held candidate context start (looks ++ [look])) :
    look.sighting = .chosen candidate context ∧ (Held candidate context start looks ∨ start = look.now) := by
  obtain ⟨earlier, first, later, split, started, stayed⟩ := held
  cases later using reverseRecOn with
  | nil =>
    obtain ⟨rfl, same⟩ := append_inj' split rfl
    obtain rfl := singleton_inj.mp same
    exact ⟨stayed look (by simp), .inr started.symm⟩
  | append_singleton rest final =>
    rw [← cons_append, ← append_assoc] at split
    obtain ⟨before, same⟩ := append_inj' split rfl
    obtain rfl := singleton_inj.mp same
    refine ⟨stayed look (by simp), .inl ⟨earlier, first, rest, before, started, ?_⟩⟩
    exact fun other mem => stayed other (by simp at mem ⊢; tauto)

theorem Held.context_last (held : Held candidate context start looks) :
    looks.getLast?.bind (·.sighting.context?) = some context := by
  cases looks using reverseRecOn with
  | nil =>
    obtain ⟨earlier, first, later, split, -⟩ := held
    simp at split
  | append_singleton before look => simp [held.of_append.1, Sighting.context?]

/-- A stretch in a new context is one that the look has just begun. -/
theorem Held.begun {under : Context}
    (before : looks.getLast?.bind (·.sighting.context?) = some context) (changed : under ≠ context)
    (held : Held candidate under start (looks ++ [look])) : start = look.now := by
  rcases held.of_append.2 with lasted | begun
  · exact absurd (Option.some.inj (lasted.context_last.symm.trans before)) changed
  · exact begun

variable [DecidableEq Candidate] [Sub Time] [LE Time] [DecidableLE Time]

variable (reading : Reading Candidate Time)

/-- The instant a candidate counts from: that of the running stopwatch if it runs
for this candidate, else now. -/
def since (candidate : Candidate) (now : Time) : Time :=
  match reading with
  | some (running, start) => if running = candidate then start else now
  | none => now

/-- What a look does to the stopwatch, and whether it fires. -/
def click (look : Look Candidate Context Time) : Reading Candidate Time × Bool :=
  match look.sighting with
  | .missed => (reading, false)
  | .nothing => (none, false)
  | .chosen candidate _ =>
    let start := since reading candidate look.now
    if look.limit ≤ look.now - start then (none, true) else (some (candidate, start), false)

theorem click_missed (sighting : look.sighting = .missed) : click reading look = (reading, false) := by
  simp [click, sighting]

theorem click_nothing (sighting : look.sighting = .nothing) : click reading look = (none, false) := by
  simp [click, sighting]

theorem click_fires (sighting : look.sighting = .chosen candidate context)
    (long : look.limit ≤ look.now - since reading candidate look.now) :
    click reading look = (none, true) := by
  simp [click, sighting, long]

theorem click_waits (sighting : look.sighting = .chosen candidate context)
    (short : ¬look.limit ≤ look.now - since reading candidate look.now) :
    click reading look = (some (candidate, since reading candidate look.now), false) := by
  simp [click, sighting, short]

/-- The stopwatch after some looks. -/
def watch (looks : List (Look Candidate Context Time)) : Reading Candidate Time :=
  looks.foldl (fun reading look => (click reading look).1) none

@[simp] theorem watch_nil : watch ([] : List (Look Candidate Context Time)) = none := rfl

@[simp] theorem watch_append (looks : List (Look Candidate Context Time))
    (look : Look Candidate Context Time) : watch (looks ++ [look]) = (click (watch looks) look).1 := by
  simp [watch, foldl_append]

/-- After a look, the stopwatch speaks for an uninterrupted stretch: when it
fires, one that is long enough, and while it runs, one from its start on. -/
structure Continuous (looks : List (Look Candidate Context Time))
    (look : Look Candidate Context Time) : Prop where
  fired : (click (watch looks) look).2 = true -> ∃ candidate context start,
    look.limit ≤ look.now - start ∧ Held candidate context start (looks ++ [look])
  running : ∀ candidate start, (click (watch looks) look).1 = some (candidate, start) ->
    ∃ context, Held candidate context start (looks ++ [look])

/-- A look in the context of the look before it, or one at which it makes no
difference whether the stopwatch was running. -/
def Undisturbed (looks : List (Look Candidate Context Time)) (look : Look Candidate Context Time) : Prop :=
  look.sighting.context? = looks.getLast?.bind (·.sighting.context?) ∨ click (watch looks) look = click none look

/-- A look at a candidate that counts, in effect, from the start of a stretch. -/
theorem Continuous.of_held {reading : Reading Candidate Time} (same : click (watch looks) look = click reading look)
    (sighting : look.sighting = .chosen candidate context)
    (held : Held candidate context (since reading candidate look.now) (looks ++ [look])) :
    Continuous looks look := by
  by_cases long : look.limit ≤ look.now - since reading candidate look.now
  · rw [click_fires _ sighting long] at same
    refine ⟨fun _ => ⟨candidate, context, _, long, held⟩, fun other start runs => ?_⟩
    simp [same] at runs
  · rw [click_waits _ sighting long] at same
    refine ⟨fun fires => by simp [same] at fires, fun other start runs => ?_⟩
    rw [same] at runs
    obtain ⟨rfl, rfl⟩ := Prod.mk.inj (Option.some.inj runs)
    exact ⟨context, held⟩

/-- A look that restarts the stopwatch begins a stretch. -/
theorem Continuous.of_restart (restarts : click (watch looks) look = click none look) : Continuous looks look := by
  cases sighting : look.sighting with
  | missed =>
    rw [click_missed none sighting] at restarts
    constructor <;> simp [restarts]
  | nothing =>
    rw [click_nothing none sighting] at restarts
    constructor <;> simp [restarts]
  | chosen candidate context => exact .of_held restarts sighting (.single sighting)

/-- A look at the candidate in a new context speaks for a stretch only if the
stopwatch does what a fresh one would do. -/
theorem Continuous.restarts {under : Context} (continuous : Continuous looks look)
    (before : looks.getLast?.bind (·.sighting.context?) = some context) (changed : under ≠ context)
    (sighting : look.sighting = .chosen candidate under) : click (watch looks) look = click none look := by
  have ofSighting : ∀ {other : Candidate} {otherContext : Context} {start : Time},
      Held other otherContext start (looks ++ [look]) -> start = look.now := by
    intro other otherContext start held
    have same := held.of_append.1
    rw [sighting] at same
    obtain ⟨rfl, rfl⟩ := Sighting.chosen.inj same
    exact held.begun before changed
  by_cases long : look.limit ≤ look.now - since (watch looks) candidate look.now
  · have fires := click_fires _ sighting long
    obtain ⟨other, otherContext, start, fresh, held⟩ := continuous.fired (by rw [fires])
    rw [ofSighting held] at fresh
    rw [fires, click_fires none sighting fresh]
  · have waits := click_waits _ sighting long
    obtain ⟨otherContext, held⟩ := continuous.running candidate _ (by rw [waits])
    have fresh := ofSighting held
    rw [fresh] at long waits
    rw [waits, click_waits none sighting long]
    rfl

/-- If the running stopwatch speaks for its stretch, then it does so after one
more look exactly when the look does not disturb it. -/
theorem continuous_iff_undisturbed (held : ∀ candidate start, watch looks = some (candidate, start) ->
    ∃ context, Held candidate context start looks) : Continuous looks look ↔ Undisturbed looks look := by
  cases reading : watch looks with
  | none =>
    have restarts : click (watch looks) look = click none look := by rw [reading]
    exact ⟨fun _ => .inr restarts, fun _ => .of_restart restarts⟩
  | some running =>
    obtain ⟨candidate, start⟩ := running
    obtain ⟨context, stayed⟩ := held candidate start reading
    have before := stayed.context_last
    cases sighting : look.sighting with
    | missed =>
      -- The stopwatch runs on over a look that shows nothing.
      have runs : click (watch looks) look = (some (candidate, start), false) := by
        rw [click_missed _ sighting, reading]
      rw [Undisturbed, before, runs, click_missed none sighting, sighting]
      simp only [Sighting.context?, reduceCtorEq, Prod.mk.injEq, false_and, or_self, iff_false]
      intro continuous
      obtain ⟨other, longer⟩ := continuous.running candidate start (by rw [runs])
      have shown := longer.of_append.1
      rw [sighting] at shown
      cases shown
    | nothing =>
      have restarts : click (watch looks) look = click none look := by
        rw [click_nothing _ sighting, click_nothing _ sighting]
      exact ⟨fun _ => .inr restarts, fun _ => .of_restart restarts⟩
    | chosen other under =>
      by_cases unchanged : under = context
      · subst unchanged
        refine ⟨fun _ => .inl (by rw [before, sighting]; rfl), fun _ => ?_⟩
        by_cases same : candidate = other
        · subst same
          refine .of_held rfl sighting ?_
          simpa [since, reading] using stayed.append sighting
        · refine .of_restart ?_
          have fresh : since (watch looks) other look.now = since none other look.now := by
            simp [since, reading, same]
          simp only [click, sighting, fresh]
      · constructor
        · exact fun continuous => .inr (continuous.restarts before unchanged sighting)
        · rintro (same | restarts)
          · rw [before, sighting] at same
            exact absurd (Option.some.inj same) unchanged
          · exact .of_restart restarts

/-- A stopwatch that is kept over some looks speaks for uninterrupted stretches
throughout exactly when no look disturbs it. -/
theorem continuous_throughout_iff (looks : List (Look Candidate Context Time)) :
    Throughout Continuous looks ↔ Throughout Undisturbed looks := by
  suffices both : (Throughout Continuous looks ↔ Throughout Undisturbed looks) ∧
      (Throughout Continuous looks -> ∀ candidate start, watch looks = some (candidate, start) ->
        ∃ context, Held candidate context start looks) from both.1
  induction looks using reverseRecOn with
  | nil => exact ⟨iff_of_true (throughout_nil _) (throughout_nil _), by simp⟩
  | append_singleton looks look ih =>
    obtain ⟨equivalent, held⟩ := ih
    rw [throughout_append, throughout_append, ← equivalent, watch_append]
    refine ⟨and_congr_right fun always => continuous_iff_undisturbed (held always), ?_⟩
    exact fun always => always.2.running

end Stopwatch

end Ns3.Semantics
