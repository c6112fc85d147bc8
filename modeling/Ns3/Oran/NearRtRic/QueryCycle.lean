import Ns3.Oran.NearRtRic.Record

/-!
# Commands of a query cycle

Two laws about the batches passed to `OranCmm::Filter`. `batch_fresh_iff`: a batch holds commands of
its own cycle only, exactly when no logic module entered the cycle with commands it did not replace
since. `saved_in_batch_iff`: commands kept by `SAVE` are in the next batch, exactly when their logic
module does not report again in between.
-/

namespace Ns3.Oran.NearRtRic

open Ns3.Semantics List
open Std (TreeMap)

variable {C : Type} {ric : Ric C}

/-- The default module `0` and the additional module `1`, queried every five
ticks. -/
def twoModules (maxWaitTime : Nat) (policy : LateCommandPolicy) : Ric Nat where
  sim := EventQueue.empty 3
  lms lm :=
    { name := if lm == 0 then "default" else "extra"
      active := false
      cycle := 0
      commands := []
      finishRunEvent := 0 }
  defaultLm := 0
  additionalLms := (∅ : TreeMap String LmId).insert "extra" 1
  active := false
  lmQueryInterval := 5
  lmQueryEvent := 0
  e2NodeInactivityEvent := 0
  lmQueryCycle := 0
  lmQueryMaxWaitTime := maxWaitTime
  processLmQueryCommandsEvent := 0
  lmQueryLateCommandPolicy := policy
  lmQueryCommands := ∅
  aborted := none
  history := []

theorem twoModules_configured (maxWaitTime : Nat) (policy : LateCommandPolicy) :
    Configured (twoModules maxWaitTime policy) := by
  constructor <;> intros <;> rfl

/-- Draws in which module `i` issues the `i`-th list of commands after the `i`-th
delay. -/
def draws (delays : List Nat) (commands : List (List Nat)) : Draws Nat where
  commands lm := commands.getD lm []
  processingDelay lm := delays.getD lm 0
  inactivityInterval := 100

/-- The key of the default module. -/
def defaultKey : LmKey := toLex ("default", true)

/-- The key of the additional module. -/
def extraKey : LmKey := toLex ("extra", false)

/-- Every command of a batch was generated by a run started for the cycle in
force when the batch was handed over. -/
def Batch.Fresh (batch : Batch C) : Prop :=
  ∀ (key : LmKey) (commands : List (Issued C)), batch.commands[key]? = some commands ->
    ∀ issued ∈ commands, issued.cycle = batch.cycle

/-- A key that still holds commands it already held when `QueryLms` moved to the
cycle in force: its logic module was not heard of since. -/
def CarriedOver (past : List (Event C)) (key : LmKey) : Prop :=
  Collector.carried 0 (collected past) key

/-- If `QueryLms` only ever runs while no commands are held, nothing is carried
over. -/
theorem not_carriedOver_of_openedEmpty {past : List (Event C)}
    (empty : Collector.OpenedEmpty (collected past)) (key : LmKey) : ¬ CarriedOver past key := by
  unfold CarriedOver
  generalize collected past = history at empty
  induction history with
  | nil => exact id
  | cons event history ih =>
    cases event with
    | opened current =>
      simp only [Collector.carried]
      split
      · exact ih empty.2
      · rintro ⟨items, holds, _⟩
        simp [empty.1 key] at holds
    | reported reporter items kept => exact fun left => ih empty left.2
    | handedOver => exact id

/-- A batch of any reachable state is fresh exactly when no key was carried over
into its cycle. -/
theorem batch_fresh_iff (reachable : (system C).Reachable ric) {batch : Batch C}
    {past : List (Event C)} (handed : (batch, past) ∈ batches ric.history) :
    batch.Fresh ↔ ∀ key, ¬ CarriedOver past key := by
  have recorded := reachable_recorded reachable
  obtain ⟨cycle, commands⟩ := recorded.batches (batch, past) handed
  obtain ⟨later, split⟩ := suffix_of_mem_batches handed
  have stamped : Collector.Stamped Issued.cycle 0 (collected past) := by
    have whole := recorded.stamped
    rw [split, collected, map_append] at whole
    exact whole.of_append
  have law := fun key => Collector.fresh_iff stamped key
  constructor
  · intro fresh key
    refine (law key).mp fun items holds issued member => ?_
    exact (fresh key items ((commands key).trans holds) issued member).trans cycle
  · intro clear key items holds issued member
    have current := (law key).mpr (clear key) items ((commands key).symm.trans holds) issued member
    exact current.trans cycle.symm

/-- Both modules answer cycle 5 before the next query. -/
def inTime : List (Action Nat) :=
  [.call 0 (.start (draws [] [])), .fire (draws [1, 2] [[10], [20]]), .fire (draws [] []), .fire (draws [] [])]

/-- The state after `inTime`, with no wait limit and late commands dropped. -/
def inTimeRic : Ric Nat :=
  ((system Nat).exec (twoModules 0 .drop) inTime).get (by decide)

theorem inTimeRic_reachable : (system Nat).Reachable inTimeRic :=
  System.reachable_of_exec (twoModules_configured 0 .drop) _ (Option.some_get _).symm

theorem inTimeRic_history : ∃ batch, inTimeRic.history =
    [.filtered batch, .finished 7 1 extraKey [⟨20, 5⟩] .collected,
     .finished 6 0 defaultKey [⟨10, 5⟩] .collected, .queried 5] :=
  ⟨_, rfl⟩

/-- The batch of `inTime` is fresh. -/
theorem inTime_batch_fresh : ∃ batch past, (batch, past) ∈ batches inTimeRic.history ∧ batch.Fresh := by
  obtain ⟨batch, history⟩ := inTimeRic_history
  have handed : (batch, [.finished 7 1 extraKey [⟨20, 5⟩] .collected,
      .finished 6 0 defaultKey [⟨10, 5⟩] .collected, .queried 5]) ∈ batches inTimeRic.history := by
    rw [history]
    exact mem_cons_self
  refine ⟨batch, _, handed, (batch_fresh_iff inTimeRic_reachable handed).mpr ?_⟩
  apply not_carriedOver_of_openedEmpty
  exact ⟨fun _ => rfl, trivial⟩

/-- The default module answers cycle 5 at time 6, the additional one would at
time 12. The periodic query at time 10 cancels it; it answers cycle 10 first. -/
def overtaken : List (Action Nat) :=
  [.call 0 (.start (draws [] [])), .fire (draws [1, 7] [[10], [20]]), .fire (draws [] []),
   .fire (draws [3, 1] [[11], [21]]),
   .fire (draws [] [])]

/-- The state after `overtaken`, with no wait limit and late commands dropped. -/
def overtakenRic : Ric Nat :=
  ((system Nat).exec (twoModules 0 .drop) overtaken).get (by decide)

theorem overtakenRic_reachable : (system Nat).Reachable overtakenRic :=
  System.reachable_of_exec (twoModules_configured 0 .drop) _ (Option.some_get _).symm

/-- The batch of cycle 10 holds the default module's command of cycle 5. -/
theorem overtakenRic_batches : (batches overtakenRic.history).map (fun entry =>
    (entry.1.cycle, entry.1.commands[defaultKey]?, entry.1.commands[extraKey]?)) =
      [(10, some [⟨10, 5⟩], some [⟨21, 10⟩])] := by
  decide

/-- With the `DROP` policy a reachable state can have handed over a command of an
earlier cycle. -/
theorem stale_command_handed_over :
    ¬ ∀ ric : Ric Nat, (system Nat).Reachable ric -> ric.lmQueryLateCommandPolicy = .drop ->
      ∀ batch past, (batch, past) ∈ batches ric.history -> batch.Fresh := by
  intro alwaysFresh
  have observed : (10, some [⟨10, 5⟩], some [⟨21, 10⟩]) ∈ (batches overtakenRic.history).map
      (fun entry => (entry.1.cycle, entry.1.commands[defaultKey]?, entry.1.commands[extraKey]?)) := by
    rw [overtakenRic_batches]
    exact mem_singleton_self _
  obtain ⟨⟨batch, past⟩, handed, same⟩ := List.mem_map.mp observed
  simp only [Prod.mk.injEq] at same
  have fresh := alwaysFresh overtakenRic overtakenRic_reachable (by decide) batch past handed
  have stamped := fresh defaultKey _ same.2.1 ⟨10, 5⟩ (mem_singleton_self _)
  rw [same.1] at stamped
  exact absurd stamped (by decide)

/-- The commands of the newest report of a key, unless they were dropped. -/
def reportedAgain (key : LmKey) (between : List (Event C)) : Option (List (Issued C)) :=
  (Collector.newestReport key (collected between)).map fun report =>
    if report.2 then report.1 else []

/-- Commands saved after the batch of their cycle are in the next batch under the
key of their logic module, exactly when the module does not report again before
that batch, or reports the very same commands again. -/
theorem saved_in_batch_iff (reachable : (system C).Reachable ric) {time : Int} {lm : LmId}
    {key : LmKey} {commands : List (Issued C)} {batch : Batch C} {between past : List (Event C)}
    (handed : (batch, between ++ .finished time lm key commands .saved :: past) ∈ batches ric.history)
    (next : batches between = []) :
    (∀ issued ∈ commands, ∃ held, batch.commands[key]? = some held ∧ issued ∈ held) ↔
      ∀ again, reportedAgain key between = some again -> commands ⊆ again := by
  have noBatch : .handedOver ∉ collected between := by
    intro member
    obtain ⟨event, inside, same⟩ := List.mem_map.mp member
    cases event with
    | queried cycle => cases same
    | finished time lm key commands fate => cases same
    | filtered inner =>
      obtain ⟨before, after, rfl⟩ := append_of_mem inside
      have listed : (inner, after) ∈ batches (before ++ .filtered inner :: after) :=
        mem_batches_of_suffix
      simp [next] at listed
  have holds := ((reachable_recorded reachable).batches _ handed).2 key
  have law := Collector.held_of_reported noBatch (collected past) key commands
  simp only [collected, map_append, map_cons, Event.toCollector] at holds law
  rw [show (Fate.saved != .dropped) = true from rfl, law] at holds
  unfold reportedAgain collected
  cases newest : Collector.newestReport key (between.map Event.toCollector) with
  | none =>
    simp only [newest] at holds
    simp [holds]
  | some report =>
    simp only [newest] at holds
    simp [holds, subset_def]

/-- The additional module answers cycle 5 at time 9, after the wait window closed
at time 8, and answers cycle 10 in time, before the default module. -/
def answeredTwice : List (Action Nat) :=
  [.call 0 (.start (draws [] [])), .fire (draws [1, 4] [[10], [20]]), .fire (draws [] []), .fire (draws [] []),
   .fire (draws [] []),
   .fire (draws [2, 1] [[11], [21]]),
   .fire (draws [] []),
   .fire (draws [] [])]

/-- The state after `answeredTwice`, with a wait window of three ticks and late
commands saved. -/
def answeredTwiceRic : Ric Nat :=
  ((system Nat).exec (twoModules 3 .save) answeredTwice).get (by decide)

theorem answeredTwiceRic_reachable : (system Nat).Reachable answeredTwiceRic :=
  System.reachable_of_exec (twoModules_configured 3 .save) _ (Option.some_get _).symm

/-- Command 20 was saved for the next cycle, whose batch holds commands 11 and 21
only. -/
theorem answeredTwiceRic_batch : ∃ batch between past,
    (batch, between ++ .finished 9 1 extraKey [⟨20, 5⟩] .saved :: past) ∈ batches answeredTwiceRic.history ∧
      batches between = [] ∧
      batch.commands.toList.flatMap (fun entry => entry.2) = [⟨11, 10⟩, ⟨21, 10⟩] :=
  ⟨_, [.finished 12 0 defaultKey [⟨11, 10⟩] .collected,
      .finished 11 1 extraKey [⟨21, 10⟩] .collected, .queried 10], _, mem_cons_self, rfl, by decide⟩

/-- With the `SAVE` policy a saved command can be missing from the next batch. -/
theorem saved_command_lost : ¬ ∀ ric : Ric Nat, (system Nat).Reachable ric -> 0 < ric.lmQueryMaxWaitTime ->
    ric.lmQueryLateCommandPolicy = .save ->
    ∀ time lm key commands batch between past,
      (batch, between ++ .finished time lm key commands .saved :: past) ∈ batches ric.history ->
      batches between = [] ->
      ∀ issued ∈ commands, ∃ entry ∈ batch.commands.toList, issued ∈ entry.2 := by
  intro keepsSaved
  obtain ⟨batch, between, past, handed, isNext, held⟩ := answeredTwiceRic_batch
  obtain ⟨entry, member, kept⟩ := keepsSaved answeredTwiceRic answeredTwiceRic_reachable (by decide)
    (by decide) 9 1 extraKey [⟨20, 5⟩] batch between past handed isNext ⟨20, 5⟩ mem_cons_self
  have listed := mem_flatMap.mpr ⟨entry, member, kept⟩
  rw [held] at listed
  exact absurd listed (by decide)

/-- Command 20 of `answeredTwice` and the report that replaced it. -/
theorem answeredTwice_saved : ∃ batch between past,
    (batch, between ++ .finished 9 1 extraKey [⟨20, 5⟩] .saved :: past) ∈ batches answeredTwiceRic.history ∧
      ((∀ issued ∈ [⟨20, 5⟩], ∃ held, batch.commands[extraKey]? = some held ∧ issued ∈ held) ↔
        ∀ again, reportedAgain extraKey between = some again -> [⟨20, 5⟩] ⊆ again) := by
  obtain ⟨batch, between, past, handed, isNext, -⟩ := answeredTwiceRic_batch
  exact ⟨batch, between, past, handed, saved_in_batch_iff answeredTwiceRic_reachable handed isNext⟩

end Ns3.Oran.NearRtRic
