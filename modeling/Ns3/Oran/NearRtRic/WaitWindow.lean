import Ns3.Oran.NearRtRic.QueryCycle

/-!
# The wait window

With a positive `LmQueryMaxWaitTime` the batch of a cycle goes out when all logic modules have
answered, or when the timer of `QueryLms` expires. `windowed_throughout_iff`: in the runs in which
`QueryLms` finds no timer of an earlier cycle, and no report completes a map with a key from before
the cycle.
-/

namespace Ns3.Oran.NearRtRic

open Ns3.Semantics List EventQueue
open Std (TreeMap)

variable {C : Type} {ric next : Ric C} {action : Action C} {lm : LmId}

/-- The logic modules that reported since the cycle in force began. -/
def answered : List (Event C) -> List LmId
  | [] => []
  | .queried cycle :: past =>
    if cycle = Collector.round 0 (collected past) then answered past else []
  | .finished _ lm _ _ _ :: past => lm :: answered past
  | .filtered _ :: past => answered past

/-- Whether a query was started whose batch was not handed over yet. -/
def awaiting : List (Event C) -> Bool
  | [] => false
  | .queried _ :: _ => true
  | .finished _ _ _ _ _ :: past => awaiting past
  | .filtered _ :: _ => false

/-- No cycle was replaced by a later one while its batch was awaited. -/
def NoneAbandoned : List (Event C) -> Prop
  | [] => True
  | .queried cycle :: past =>
    (awaiting past = true -> cycle = Collector.round 0 (collected past)) ∧ NoneAbandoned past
  | .finished _ _ _ _ _ :: past => NoneAbandoned past
  | .filtered _ :: past => NoneAbandoned past

/-- The batch was handed over at the end of the wait window of its cycle, or at
the instant the last of the logic modules answered for its cycle. -/
def Batch.Timely (batch : Batch C) (maxWaitTime : Nat) (lms : List LmId) (past : List (Event C)) : Prop :=
  batch.time = batch.cycle + maxWaitTime ∨
    (∃ lm key commands fate older, past = .finished batch.time lm key commands fate :: older) ∧
      ∀ lm ∈ lms, lm ∈ answered past

/-- Every pending timer of the wait window was armed at this instant. -/
def ArmedAt (ric : Ric C) (time : Int) : Prop :=
  ∀ entry ∈ ric.sim.entries, entry.callback = .processLmQueryCommands -> entry.ts = time + ric.lmQueryMaxWaitTime

/-- The wait window is respected. -/
structure Windowed (ric : Ric C) : Prop where
  /-- Every pending timer was armed for the cycle in force. -/
  timers : ArmedAt ric ric.lmQueryCycle
  batches : ∀ entry ∈ batches ric.history, entry.1.Timely ric.lmQueryMaxWaitTime (currentLms ric) entry.2
  noneAbandoned : NoneAbandoned ric.history
  /-- A batch that is awaited has its timer. -/
  pending : awaiting ric.history = true -> ric.sim.isPending ric.processLmQueryCommandsEvent = true

/-! ## The runs and their condition -/

/-- The calls of a run in which nothing but queries happens: the RIC is started,
and reports arrive that may trigger a query. -/
def QueriesOnly : Action C -> Prop
  | .fire _ => True
  | .call _ (.start _) => True
  | .call _ (.notifyReportReceived _ _) => True
  | .call _ _ => False

instance (action : Action C) : Decidable (QueriesOnly action) :=
  match action with
  | .fire _ => .isTrue trivial
  | .call _ (.start _) => .isTrue trivial
  | .call _ (.notifyReportReceived _ _) => .isTrue trivial
  | .call _ .stop => .isFalse id
  | .call _ .activate => .isFalse id
  | .call _ .deactivate => .isFalse id
  | .call _ (.activateLm _) => .isFalse id
  | .call _ (.deactivateLm _) => .isFalse id
  | .call _ (.addLogicModule _) => .isFalse id
  | .call _ (.removeLogicModule _) => .isFalse id
  | .call _ (.setDefaultLogicModule _) => .isFalse id

/-- The report of a logic module is in time and makes the map as large as the
tables are. -/
def Fills (ric : Ric C) (lm : LmId) : Prop :=
  (ric.lms lm).active = true ∧ (ric.lms lm).cycle = ric.lmQueryCycle ∧ acceptsCommands ric = true ∧
    (storeCommands ric (ric.lms lm).commands lm).lmQueryCommands.size = ric.additionalLms.size + 1

/-- All logic modules with a key in the map, up to this one, reported since the
cycle in force began. -/
def OthersReported (ric : Ric C) (lm : LmId) : Prop :=
  ∀ key ∈ ric.lmQueryCommands, key = lmKey ric lm ∨ key ∈ Collector.reporters 0 (collected ric.history)

/-- What a step must not find left over from an earlier cycle: a timer, when it
runs `QueryLms`; another key, when its report fills the map before the window
ends. -/
structure NothingLeft (ric : Ric C) (action : Action C) : Prop where
  timers : ∀ time, RunsQuery ric action time -> ArmedAt ric time
  keys : ∀ lm time, Fires ric action (.finishRun lm) time -> Fills ric lm ->
    time ≠ ric.lmQueryCycle + ric.lmQueryMaxWaitTime -> OthersReported ric lm

/-! ## What the tables say about reports -/

/-- Runs and reports belong to logic modules of the tables, and the timer of the
wait window only runs in an active RIC. -/
structure Supervised (ric : Ric C) : Prop where
  finishRuns : ∀ entry ∈ ric.sim.entries, ∀ lm, entry.callback = .finishRun lm -> lm ∈ currentLms ric
  finished : ∀ time lm key commands fate, Event.finished time lm key commands fate ∈ ric.history ->
      lm ∈ currentLms ric ∧ key = lmKey ric lm
  active : ∀ entry ∈ ric.sim.entries, entry.callback = .processLmQueryCommands -> ric.active = true

/-- A step that leaves alone the record, the tables and the timer. -/
structure Quiet (ric next : Ric C) : Prop where
  history : next.history = ric.history
  defaultLm : next.defaultLm = ric.defaultLm
  additionalLms : next.additionalLms = ric.additionalLms
  name : ∀ lm, (next.lms lm).name = (ric.lms lm).name
  lmQueryMaxWaitTime : next.lmQueryMaxWaitTime = ric.lmQueryMaxWaitTime
  lmQueryCycle : next.lmQueryCycle = ric.lmQueryCycle
  processLmQueryCommandsEvent : next.processLmQueryCommandsEvent = ric.processLmQueryCommandsEvent
  active : ric.active = true -> next.active = true
  finishRuns : ∀ entry lm, entry.callback = .finishRun lm -> entry ∈ next.sim.entries -> entry ∈ ric.sim.entries
  timers : ∀ entry : Entry Callback, entry.callback = .processLmQueryCommands ->
    (entry ∈ next.sim.entries ↔ entry ∈ ric.sim.entries)

theorem currentLms_congr (defaultLm : next.defaultLm = ric.defaultLm)
    (additionalLms : next.additionalLms = ric.additionalLms) : currentLms next = currentLms ric := by
  rw [currentLms, currentLms, defaultLm, additionalLms]

theorem lmKey_congr (defaultLm : next.defaultLm = ric.defaultLm)
    (name : (next.lms lm).name = (ric.lms lm).name) : lmKey next lm = lmKey ric lm := by
  rw [lmKey, lmKey, defaultLm, name]

/-- The stored timer is pending exactly when a timer event carries its id. -/
theorem isPending_process_iff (scheduling : Scheduling ric) :
    ric.sim.isPending ric.processLmQueryCommandsEvent = true ↔
      ∃ entry ∈ ric.sim.entries, entry.callback = .processLmQueryCommands ∧
        entry.uid = ric.processLmQueryCommandsEvent := by
  refine isPending_iff.trans ⟨?_, ?_⟩
  · rintro ⟨entry, mem, uid⟩
    exact ⟨entry, mem, scheduling.process.2 entry mem uid, uid⟩
  · rintro ⟨entry, mem, _, uid⟩
    exact ⟨entry, mem, uid⟩

namespace Quiet

section

variable (quiet : Quiet ric next)
include quiet

theorem isPending_process (scheduling : Scheduling ric) (nextScheduling : Scheduling next) :
    next.sim.isPending next.processLmQueryCommandsEvent = ric.sim.isPending ric.processLmQueryCommandsEvent := by
  rw [Bool.eq_iff_iff, isPending_process_iff scheduling, isPending_process_iff nextScheduling,
    quiet.processLmQueryCommandsEvent]
  exact exists_congr fun entry =>
    ⟨fun ⟨mem, timer, uid⟩ => ⟨(quiet.timers entry timer).mp mem, timer, uid⟩,
      fun ⟨mem, timer, uid⟩ => ⟨(quiet.timers entry timer).mpr mem, timer, uid⟩⟩

theorem supervised (supervised : Supervised ric) : Supervised next where
  finishRuns entry mem lm finish := by
    rw [currentLms_congr quiet.defaultLm quiet.additionalLms]
    exact supervised.finishRuns entry (quiet.finishRuns entry lm finish mem) lm finish
  finished time lm key commands fate mem := by
    rw [currentLms_congr quiet.defaultLm quiet.additionalLms, lmKey_congr quiet.defaultLm (quiet.name lm)]
    exact supervised.finished time lm key commands fate (quiet.history ▸ mem)
  active entry mem timer :=
    quiet.active (supervised.active entry ((quiet.timers entry timer).mp mem) timer)

theorem armedAt_iff {time : Int} : ArmedAt next time ↔ ArmedAt ric time := by
  unfold ArmedAt
  rw [quiet.lmQueryMaxWaitTime]
  exact forall_congr' fun entry =>
    ⟨fun holds mem timer => holds ((quiet.timers entry timer).mpr mem) timer,
      fun holds mem timer => holds ((quiet.timers entry timer).mp mem) timer⟩

theorem windowed (scheduling : Scheduling ric)
    (nextScheduling : Scheduling next) (windowed : Windowed ric) : Windowed next where
  timers := by
    rw [quiet.lmQueryCycle, quiet.armedAt_iff]
    exact windowed.timers
  batches := by
    rw [quiet.history, quiet.lmQueryMaxWaitTime, currentLms_congr quiet.defaultLm quiet.additionalLms]
    exact windowed.batches
  noneAbandoned := quiet.history ▸ windowed.noneAbandoned
  pending := by
    rw [quiet.history, quiet.isPending_process scheduling nextScheduling]
    exact windowed.pending

end

theorem trans {last : Ric C} (first : Quiet ric next) (second : Quiet next last) : Quiet ric last where
  history := second.history.trans first.history
  defaultLm := second.defaultLm.trans first.defaultLm
  additionalLms := second.additionalLms.trans first.additionalLms
  name lm := (second.name lm).trans (first.name lm)
  lmQueryMaxWaitTime := second.lmQueryMaxWaitTime.trans first.lmQueryMaxWaitTime
  lmQueryCycle := second.lmQueryCycle.trans first.lmQueryCycle
  processLmQueryCommandsEvent :=
    second.processLmQueryCommandsEvent.trans first.processLmQueryCommandsEvent
  active := second.active ∘ first.active
  finishRuns entry lm finish mem :=
    first.finishRuns entry lm finish (second.finishRuns entry lm finish mem)
  timers entry timer := (second.timers entry timer).trans (first.timers entry timer)

variable {sim : EventQueue Callback}

theorem of_sim (finishRuns : ∀ entry lm, entry.callback = .finishRun lm -> entry ∈ sim.entries ->
    entry ∈ ric.sim.entries) (timers : ∀ entry : Entry Callback, entry.callback = .processLmQueryCommands ->
    (entry ∈ sim.entries ↔ entry ∈ ric.sim.entries)) : Quiet ric { ric with sim := sim } where
  history := rfl
  defaultLm := rfl
  additionalLms := rfl
  name _ := rfl
  lmQueryMaxWaitTime := rfl
  lmQueryCycle := rfl
  processLmQueryCommandsEvent := rfl
  active := id
  finishRuns := finishRuns
  timers := timers

/-- Starting an event that is no timer of the wait window. -/
theorem takeNext {entry : Entry Callback} (taken : ric.sim.takeNext? = some (entry, sim))
    (other : entry.callback ≠ .processLmQueryCommands) : Quiet ric { ric with sim := sim } := by
  obtain ⟨mem, _, _, _, members⟩ := takeNext?_spec taken
  refine of_sim (fun _ _ _ pending => ((members _).mp pending).1) fun timer same => ?_
  refine (members timer).trans ⟨And.left, fun pending => ⟨pending, fun uid => other ?_⟩⟩
  rw [← eq_of_uid pending mem uid, same]

theorem advance {time : Int} (advanced : ric.sim.advance? time = some sim) : Quiet ric { ric with sim := sim } := by
  obtain ⟨_, _, _, members⟩ := advance?_spec advanced
  refine of_sim (fun _ _ _ pending => members ▸ pending) fun timer _ => ?_
  rw [members]

theorem cancel_query (scheduling : Scheduling ric) : Quiet ric { ric with sim := ric.sim.cancel ric.lmQueryEvent } :=
  of_sim (fun _ _ _ pending => (mem_cancel.mp pending).1) fun _ same =>
    mem_cancel_of_owns scheduling.query (by simp [same])

theorem checkForInactivity {draws : Draws C} (scheduling : Scheduling ric) :
    Quiet ric (checkForInactivity ric draws) := by
  by_cases active : ric.active = true
  · have effect := checkForInactivity_eq ric draws active
    have members := fun entry => @checkForInactivity_mem _ _ scheduling draws entry
    rw [effect] at members ⊢
    exact {
      history := rfl
      defaultLm := rfl
      additionalLms := rfl
      name := fun _ => rfl
      lmQueryMaxWaitTime := rfl
      lmQueryCycle := rfl
      processLmQueryCommandsEvent := rfl
      active := id
      finishRuns := fun entry lm same pending => (members entry (by simp [same])).mp pending
      timers := fun entry same => members entry (by simp [same]) }
  · rw [show NearRtRic.checkForInactivity ric draws = ric by
      simp [NearRtRic.checkForInactivity, active]]
    exact of_sim (fun _ _ _ => id) fun _ _ => .rfl

theorem refl (ric : Ric C) : Quiet ric ric := of_sim (fun _ _ _ => id) fun _ _ => .rfl

theorem setLm {value : Lm C} (name : value.name = (ric.lms lm).name) : Quiet ric (setLm ric lm value) where
  history := rfl
  defaultLm := rfl
  additionalLms := rfl
  name other := by
    by_cases here : other = lm
    · subst here
      simpa [NearRtRic.setLm] using name
    · simp [NearRtRic.setLm, here]
  lmQueryMaxWaitTime := rfl
  lmQueryCycle := rfl
  processLmQueryCommandsEvent := rfl
  active := id
  finishRuns _ _ _ pending := pending
  timers _ _ := .rfl

theorem foldl_activateLm (visited : List LmId) (ric : Ric C) :
    Quiet ric (visited.foldl NearRtRic.activateLm ric) := by
  induction visited generalizing ric with
  | nil => exact refl ric
  | cons lm rest ih =>
    have first : Quiet ric (NearRtRic.activateLm ric lm) := setLm rfl
    exact first.trans (ih _)

theorem activate (ric : Ric C) : Quiet ric (activate ric) := by
  unfold NearRtRic.activate
  split
  · exact refl ric
  · have started : Quiet ric { ric with active := true } :=
      { refl ric with active := fun _ => rfl }
    exact started.trans (foldl_activateLm _ _)

theorem start (ric : Ric C) (draws : Draws C) : Quiet ric (start ric draws) := by
  have activated := activate ric
  unfold NearRtRic.start
  dsimp only
  split
  · exact { activated with }
  · split
    · exact { activated with }
    · refine activated.trans ?_
      exact {
        history := rfl
        defaultLm := rfl
        additionalLms := rfl
        name := fun _ => rfl
        lmQueryMaxWaitTime := rfl
        lmQueryCycle := rfl
        processLmQueryCommandsEvent := rfl
        active := id
        finishRuns := by
          intro entry lm same pending
          rcases mem_schedule.mp pending with queried | rfl
          · rcases mem_schedule.mp queried with old | rfl
            · exact old
            · cases same
          · cases same
        timers := by
          intro entry same
          refine mem_schedule.trans ?_
          refine (or_congr_left mem_schedule).trans ?_
          refine ⟨?_, fun pending => .inl (.inl pending)⟩
          rintro ((old | rfl) | rfl)
          · exact old
          · cases same
          · cases same }

end Quiet

/-! ## Queries -/

/-- After a query the record says that its batch is awaited, and logic modules of
the tables run. -/
theorem Queried.supervised (queried : Queried ric next) (supervised : Supervised ric)
    (active : ric.active = true) : Supervised next where
  finishRuns entry mem lm finish := by
    rw [currentLms_congr queried.defaultLm queried.additionalLms]
    by_cases current : lm ∈ currentLms ric
    · exact current
    · have old := ((queried.others lm (.inl current)).2 entry finish).mp mem
      exact supervised.finishRuns entry old lm finish
  finished time lm key commands fate mem := by
    rw [currentLms_congr queried.defaultLm queried.additionalLms, lmKey_congr queried.defaultLm (queried.name lm)]
    rw [queried.history] at mem
    simp only [mem_cons, reduceCtorEq, false_or] at mem
    exact supervised.finished time lm key commands fate mem
  active _ _ _ := queried.active.trans active

/-- A query keeps the window exactly when every timer it finds was armed at the
same instant. -/
theorem Queried.windowed_iff (queried : Queried ric next) (recorded : Recorded ric)
    (scheduling : Scheduling ric) (windowed : Windowed ric) (limited : 0 < ric.lmQueryMaxWaitTime) :
    Windowed next ↔ ArmedAt ric ric.sim.now := by
  constructor
  · intro after entry mem timer
    have kept := after.timers entry ((queried.timers entry timer).mpr (.inl mem)) timer
    rwa [queried.lmQueryCycle, queried.lmQueryMaxWaitTime] at kept
  · intro current
    exact {
      timers := by
        intro entry mem timer
        rw [queried.lmQueryCycle, queried.lmQueryMaxWaitTime]
        rcases (queried.timers entry timer).mp mem with old | ⟨_, _, ts⟩
        · exact current entry old timer
        · exact ts
      batches := by
        rw [queried.history, queried.lmQueryMaxWaitTime, currentLms_congr queried.defaultLm queried.additionalLms]
        exact windowed.batches
      noneAbandoned := by
        rw [queried.history]
        refine ⟨fun awaited => ?_, windowed.noneAbandoned⟩
        obtain ⟨entry, mem, timer, _⟩ :=
          (isPending_process_iff scheduling).mp (windowed.pending awaited)
        have armed := windowed.timers entry mem timer
        have same := current entry mem timer
        rw [← recorded.cycle]
        omega
      pending := fun _ => queried.timer limited }

/-! ## Reports -/

/-- Where every report carries the key of its logic module, the keys heard of in
the cycle are those of the modules that answered. -/
theorem reporters_eq {history : List (Event C)} {keyOf : LmId -> LmKey}
    (keyed : ∀ time lm key commands fate, Event.finished time lm key commands fate ∈ history ->
      key = keyOf lm) : Collector.reporters 0 (collected history) = (answered history).map keyOf := by
  induction history with
  | nil => rfl
  | cons event past ih =>
    have tail := ih fun time lm key commands fate mem =>
      keyed time lm key commands fate (mem_cons_of_mem _ mem)
    cases event with
    | queried cycle =>
      simp only [collected_cons, Event.toCollector, Collector.reporters, answered]
      split
      · exact tail
      · rfl
    | finished time lm key commands fate =>
      simp only [collected_cons, Event.toCollector, Collector.reporters, answered, tail,
        map_cons, keyed time lm key commands fate mem_cons_self]
    | filtered batch => exact tail

/-- Only logic modules of the tables answer. -/
theorem answered_current (supervised : Supervised ric) (heard : lm ∈ answered ric.history) : lm ∈ currentLms ric := by
  have listed : ∀ time lm key commands fate,
      Event.finished time lm key commands fate ∈ ric.history -> lm ∈ currentLms ric :=
    fun time lm key commands fate mem =>
      (supervised.finished time lm key commands fate mem).1
  generalize ric.history = history at heard listed
  induction history with
  | nil => simp [answered] at heard
  | cons event past ih =>
    have tail := fun heard => ih heard fun time lm key commands fate mem =>
      listed time lm key commands fate (mem_cons_of_mem _ mem)
    cases event with
    | queried cycle =>
      simp only [answered] at heard
      split at heard
      · exact tail heard
      · simp at heard
    | finished time other key commands fate =>
      rcases mem_cons.mp heard with rfl | older
      · exact listed time lm key commands fate mem_cons_self
      · exact tail older
    | filtered batch => exact tail heard

variable {commands : List (Issued C)} {key : LmKey}

theorem mem_storeCommands (inTime : acceptsCommands ric = true) :
    key ∈ (storeCommands ric commands lm).lmQueryCommands ↔ key = lmKey ric lm ∨ key ∈ ric.lmQueryCommands := by
  have stored := getElem?_collectCommands ric.lmQueryCommands (lmKey ric lm) key commands .collected
  simp only [storeCommands, fateOf, inTime, if_true, TreeMap.mem_iff_isSome_getElem?, stored]
  by_cases own : key = lmKey ric lm
  · simp [own]
  · simp [own]

/-- A key of the map is the key of a logic module of the tables. -/
theorem key_of_mem (recorded : Recorded ric) (supervised : Supervised ric)
    (mem : key ∈ ric.lmQueryCommands) : key ∈ (currentLms ric).map (lmKey ric) := by
  obtain ⟨items, holds⟩ := Option.isSome_iff_exists.mp (TreeMap.mem_iff_isSome_getElem?.mp mem)
  rw [recorded.commands] at holds
  obtain ⟨reportedItems, kept, reported⟩ := Collector.reported_of_held holds
  obtain ⟨event, inside, same⟩ := mem_map.mp reported
  cases event with
  | queried cycle => cases same
  | finished time other otherKey commands fate =>
    cases same
    obtain ⟨current, rfl⟩ := supervised.finished time other _ _ fate inside
    exact mem_map_of_mem current
  | filtered batch => cases same

instance : Std.LawfulEqCmp (compare : LmKey -> LmKey -> Ordering) :=
  ⟨fun equal => compare_eq_iff_eq.mp equal⟩

theorem keys_perm_of_full (recorded : Recorded ric) (supervised : Supervised ric) (current : lm ∈ currentLms ric)
    (inTime : acceptsCommands ric = true)
    (full : (storeCommands ric commands lm).lmQueryCommands.size = ric.additionalLms.size + 1) :
    (storeCommands ric commands lm).lmQueryCommands.keys.Perm ((currentLms ric).map (lmKey ric)) := by
  have subset : (storeCommands ric commands lm).lmQueryCommands.keys ⊆ (currentLms ric).map (lmKey ric) := by
    intro key mem
    rcases (mem_storeCommands inTime).mp (TreeMap.mem_keys.mp mem) with rfl | held
    · exact mem_map_of_mem current
    · exact key_of_mem recorded supervised held
  apply (TreeMap.nodup_keys.subperm subset).perm_of_length_le
  simp [currentLms, full]

/-- When a report in time makes the map as large as the tables, all logic modules
have answered exactly if no other key is left from before the cycle. -/
theorem allAnswered_iff (recorded : Recorded ric) (supervised : Supervised ric)
    (commands : List (Issued C)) (current : lm ∈ currentLms ric) (inTime : acceptsCommands ric = true)
    (full : (storeCommands ric commands lm).lmQueryCommands.size = ric.additionalLms.size + 1) :
    (∀ other ∈ currentLms ric, other ∈ lm :: answered ric.history) ↔ OthersReported ric lm := by
  have perm := keys_perm_of_full recorded supervised current inTime full
  have distinct : ((currentLms ric).map (lmKey ric)).Nodup := perm.nodup_iff.mp TreeMap.nodup_keys
  have injective := inj_on_of_nodup_map distinct
  unfold OthersReported
  rw [reporters_eq fun time lm key commands fate mem =>
    (supervised.finished time lm key commands fate mem).2]
  constructor
  · intro all key held
    obtain ⟨other, otherCurrent, rfl⟩ := mem_map.mp (key_of_mem recorded supervised held)
    rcases mem_cons.mp (all other otherCurrent) with rfl | heard
    · exact .inl rfl
    · exact .inr (mem_map_of_mem heard)
  · intro fresh other otherCurrent
    have listed : lmKey ric other ∈ (storeCommands ric commands lm).lmQueryCommands :=
      TreeMap.mem_keys.mp (perm.mem_iff.mpr (mem_map_of_mem otherCurrent))
    have reported : lmKey ric other = lmKey ric lm ∨ lmKey ric other ∈ (answered ric.history).map (lmKey ric) :=
      ((mem_storeCommands inTime).mp listed).elim .inl (fresh _)
    rcases reported with own | heard
    · exact injective otherCurrent current own ▸ mem_cons_self
    · obtain ⟨again, heard, same⟩ := mem_map.mp heard
      have againCurrent := answered_current supervised heard
      exact injective againCurrent otherCurrent same ▸ mem_cons_of_mem _ heard

/-- With a wait limit, commands are in time exactly while the timer is pending. -/
theorem acceptsCommands_iff (limited : 0 < ric.lmQueryMaxWaitTime) :
    acceptsCommands ric = true ↔ ric.sim.isPending ric.processLmQueryCommandsEvent = true := by
  simp [acceptsCommands, Nat.ne_of_gt limited]

/-- Handing over keeps the window exactly when the batch is timely. -/
theorem processLmQueryCommands_windowed_iff (windowed : Windowed ric)
    (sim : EventQueue Callback) (subset : ∀ entry ∈ sim.entries, entry ∈ ric.sim.entries)
    (active : ric.active = true) :
    Windowed (processLmQueryCommands { ric with sim := sim }) ↔
      Batch.Timely ⟨sim.now, ric.lmQueryCycle, ric.lmQueryCommands⟩ ric.lmQueryMaxWaitTime
        (currentLms ric) ric.history := by
  rw [processLmQueryCommands_eq { ric with sim := sim } active]
  constructor
  · intro after
    exact after.batches _ mem_cons_self
  · intro timely
    exact {
      timers := fun entry mem =>
        windowed.timers entry (subset entry (mem_cancel.mp mem).1)
      batches := by
        intro entry mem
        rcases mem_cons.mp mem with rfl | older
        · exact timely
        · exact windowed.batches entry older
      noneAbandoned := windowed.noneAbandoned
      pending := fun awaited => by simp [awaiting] at awaited }

theorem processLmQueryCommands_supervised (supervised : Supervised ric) :
    Supervised (processLmQueryCommands ric) := by
  by_cases active : ric.active = true
  · rw [processLmQueryCommands_eq ric active]
    exact {
      finishRuns := fun entry mem =>
        supervised.finishRuns entry (mem_cancel.mp mem).1
      finished := by
        intro time lm key commands fate mem
        simp only [mem_cons, reduceCtorEq, false_or] at mem
        exact supervised.finished time lm key commands fate mem
      active := fun entry mem => supervised.active entry (mem_cancel.mp mem).1 }
  · simpa [processLmQueryCommands, active] using supervised

theorem storeCommands_supervised (supervised : Supervised ric) (current : lm ∈ currentLms ric) :
    Supervised (storeCommands ric commands lm) where
  finishRuns := supervised.finishRuns
  finished time other key otherCommands fate mem := by
    rcases mem_cons.mp mem with same | older
    · cases same
      exact ⟨current, rfl⟩
    · exact supervised.finished time other key otherCommands fate older
  active := supervised.active

theorem storeCommands_windowed (windowed : Windowed ric) : Windowed (storeCommands ric commands lm) where
  timers := windowed.timers
  batches := windowed.batches
  noneAbandoned := windowed.noneAbandoned
  pending := windowed.pending

/-- A batch that follows the report of a logic module is timely exactly when the
window ends, or all logic modules have answered. -/
theorem timely_of_report_iff {batch : Batch C} {maxWaitTime : Nat} {lms : List LmId} {fate : Fate}
    {past : List (Event C)} :
    batch.Timely maxWaitTime lms (.finished batch.time lm key commands fate :: past) ↔
      batch.time = batch.cycle + maxWaitTime ∨ ∀ other ∈ lms, other ∈ lm :: answered past := by
  exact or_congr .rfl ⟨And.right, fun all => ⟨⟨lm, key, commands, fate, past, rfl⟩, all⟩⟩

/-- A report keeps the window unless it fills a map that holds a key from before
the cycle. -/
theorem notifyLmFinished_windowed_iff (recorded : Recorded ric) (scheduling : Scheduling ric)
    (supervised : Supervised ric) (windowed : Windowed ric)
    (limited : 0 < ric.lmQueryMaxWaitTime) (current : lm ∈ currentLms ric)
    (active : (ric.lms lm).active = true) :
    Windowed (notifyLmFinished ric (ric.lms lm).cycle (ric.lms lm).commands lm) ↔
      (Fills ric lm -> ric.sim.now ≠ ric.lmQueryCycle + ric.lmQueryMaxWaitTime ->
        OthersReported ric lm) := by
  unfold notifyLmFinished
  split
  · next sameCycle =>
    have stored : Windowed (storeCommands ric (ric.lms lm).commands lm) :=
      storeCommands_windowed windowed
    dsimp only
    split
    · next full =>
      obtain ⟨full, inTime⟩ := full
      obtain ⟨timer, mem, same, _⟩ :=
        (isPending_process_iff scheduling).mp ((acceptsCommands_iff limited).mp inTime)
      have ricActive := supervised.active timer mem same
      refine (processLmQueryCommands_windowed_iff stored ric.sim (fun _ => id)
        ricActive).trans (timely_of_report_iff.trans ?_)
      have answers := allAnswered_iff recorded supervised (ric.lms lm).commands current
        inTime full
      have fills : Fills ric lm := ⟨active, sameCycle, inTime, full⟩
      constructor
      · rintro (ends | all) _ early
        · exact absurd ends early
        · exact answers.mp all
      · intro nothingLeft
        by_cases ends : ric.sim.now = ric.lmQueryCycle + ric.lmQueryMaxWaitTime
        · exact .inl ends
        · exact .inr (answers.mpr (nothingLeft fills ends))
    · next notFull =>
      exact iff_of_true stored fun fills => absurd ⟨fills.2.2.2, fills.2.2.1⟩ notFull
  · next otherCycle =>
    exact iff_of_true { windowed with } fun fills => absurd fills.2.1 otherCycle

theorem notifyLmFinished_supervised (supervised : Supervised ric) {cycle : Int} (current : lm ∈ currentLms ric) :
    Supervised (notifyLmFinished ric cycle commands lm) := by
  unfold notifyLmFinished
  dsimp only
  split
  · split
    · exact processLmQueryCommands_supervised (storeCommands_supervised supervised current)
    · exact storeCommands_supervised supervised current
  · exact { supervised with }

/-! ## Steps -/

/-- The condition on a step that starts an event. -/
theorem nothingLeft_fire_iff {draws : Draws C} {entry : Entry Callback}
    {sim : EventQueue Callback} (taken : ric.sim.takeNext? = some (entry, sim)) :
    NothingLeft ric (.fire draws) ↔
      (ric.active = true -> entry.callback = .queryLms -> ArmedAt ric entry.ts) ∧
      ∀ lm, entry.callback = .finishRun lm -> Fills ric lm ->
        entry.ts ≠ ric.lmQueryCycle + ric.lmQueryMaxWaitTime -> OthersReported ric lm := by
  constructor
  · rintro ⟨timers, keys⟩
    exact ⟨fun active query => timers _ ⟨active, .inl ((fires_iff taken).mpr ⟨query, rfl⟩)⟩,
      fun lm finish => keys lm _ ((fires_iff taken).mpr ⟨finish, rfl⟩)⟩
  · rintro ⟨timers, keys⟩
    constructor
    · rintro time ⟨active, fires | ⟨_, called⟩⟩
      · obtain ⟨query, rfl⟩ := (fires_iff taken).mp fires
        exact timers active query
      · cases called
    · intro lm time fires
      obtain ⟨finish, rfl⟩ := (fires_iff taken).mp fires
      exact keys lm finish

/-- The condition on a call. -/
theorem nothingLeft_call_iff {time : Int} {call : Call C} :
    NothingLeft ric (.call time call) ↔
      (ric.active = true -> ∀ draws, call = .notifyReportReceived true draws ->
        ArmedAt ric time) := by
  constructor
  · rintro ⟨timers, _⟩ active draws rfl
    exact timers time ⟨active, .inr ⟨draws, rfl⟩⟩
  · intro timers
    constructor
    · rintro other ⟨active, fires | ⟨draws, called⟩⟩
      · exact absurd fires not_fires_call
      · cases called
        exact timers active draws rfl
    · intro lm other fires
      exact absurd fires not_fires_call

/-- A query at an instant: nothing but a timer armed earlier spoils the window. -/
theorem queryLms_windowed_iff {draws : Draws C} (recorded : Recorded ric)
    (scheduling : Scheduling ric) (windowed : Windowed ric) (limited : 0 < ric.lmQueryMaxWaitTime) :
    Windowed (queryLms ric draws) ↔ (ric.active = true -> ArmedAt ric ric.sim.now) := by
  by_cases active : ric.active = true
  · have queried := queryLms_queried scheduling active draws
    simpa only [active, true_implies] using queried.windowed_iff recorded scheduling windowed limited
  · rw [show queryLms ric draws = ric by simp [queryLms, active]]
    exact iff_of_true windowed fun holds => absurd holds active

theorem notifyReportReceived_windowed_iff {triggered : Bool} {draws : Draws C}
    (recorded : Recorded ric) (scheduling : Scheduling ric) (windowed : Windowed ric)
    (limited : 0 < ric.lmQueryMaxWaitTime) :
    Windowed (notifyReportReceived ric triggered draws) ↔
      (triggered = true -> ric.active = true -> ArmedAt ric ric.sim.now) := by
  simp only [notifyReportReceived, ite_isPending_cancel]
  split
  · next asked =>
    have quiet := Quiet.cancel_query scheduling
    have cancelled : Scheduling { ric with sim := ric.sim.cancel ric.lmQueryEvent } :=
      scheduling.cancel _
    have stillRecorded : Recorded { ric with sim := ric.sim.cancel ric.lmQueryEvent } :=
      recorded.setSim le_rfl
    refine (queryLms_windowed_iff stillRecorded cancelled
      (quiet.windowed scheduling cancelled windowed) limited).trans ?_
    rw [quiet.armedAt_iff]
    simp [asked]
  · next silent => exact iff_of_true windowed fun asked => absurd asked silent

theorem queryLms_supervised {draws : Draws C} (scheduling : Scheduling ric)
    (supervised : Supervised ric) : Supervised (queryLms ric draws) := by
  by_cases active : ric.active = true
  · exact (queryLms_queried scheduling active draws).supervised supervised active
  · simpa [queryLms, active] using supervised

/-- Before a report is carried out, the event that delivers it is not pending any
more; this does not change what the report does. -/
theorem Quiet.fills_iff {sim : EventQueue Callback} (quiet : Quiet ric { ric with sim := sim })
    (scheduling : Scheduling ric) (nextScheduling : Scheduling { ric with sim := sim }) :
    Fills { ric with sim := sim } lm ↔ Fills ric lm := by
  have pending := quiet.isPending_process scheduling nextScheduling
  have accepts : acceptsCommands { ric with sim := sim } = acceptsCommands ric := by
    simp only [acceptsCommands, pending]
  have fate : fateOf { ric with sim := sim } = fateOf ric := by
    unfold fateOf
    rw [accepts]
  simp only [Fills, storeCommands, lmKey, accepts, fate]

theorem finishRun_windowed_iff (recorded : Recorded ric) (scheduling : Scheduling ric)
    (supervised : Supervised ric) (windowed : Windowed ric)
    (limited : 0 < ric.lmQueryMaxWaitTime) (current : lm ∈ currentLms ric) :
    Windowed (finishRun ric lm) ↔ (Fills ric lm -> ric.sim.now ≠ ric.lmQueryCycle + ric.lmQueryMaxWaitTime ->
        OthersReported ric lm) := by
  unfold finishRun
  split
  · next active =>
    rw [← notifyLmFinished_windowed_iff recorded scheduling supervised windowed limited current active]
    exact ⟨fun ⟨timers, batches, noneAbandoned, pending⟩ =>
      ⟨timers, batches, noneAbandoned, pending⟩,
      fun ⟨timers, batches, noneAbandoned, pending⟩ =>
        ⟨timers, batches, noneAbandoned, pending⟩⟩
  · next inactive => exact iff_of_true windowed fun fills => absurd fills.1 inactive

theorem finishRun_supervised (supervised : Supervised ric) (current : lm ∈ currentLms ric) :
    Supervised (finishRun ric lm) := by
  unfold finishRun
  split
  · refine Quiet.supervised (Quiet.setLm ?_) (notifyLmFinished_supervised supervised current)
    rfl
  · exact supervised

/-- What holds along every run of queries, whether the window is kept or not. -/
structure Traced (ric : Ric C) : Prop where
  recorded : Recorded ric
  scheduling : Scheduling ric
  supervised : Supervised ric

theorem step_traced (traced : Traced ric) (queries : QueriesOnly action)
    (moves : (system C).step ric action = some next) : Traced next where
  recorded := step_recorded traced.recorded traced.scheduling moves
  scheduling := step_scheduling traced.scheduling moves
  supervised := by
    obtain ⟨_, ⟨draws, entry, sim, rfl, taken, rfl⟩ | ⟨time, call, sim, rfl, advanced, rfl⟩⟩ :=
      step_cases moves
    · have mem := (takeNext?_spec taken).1
      have scheduling := traced.scheduling.takeNext taken
      by_cases timer : entry.callback = .processLmQueryCommands
      · rw [timer]
        apply processLmQueryCommands_supervised
        have members := (takeNext?_spec taken).2.2.2.2
        exact { traced.supervised with
          finishRuns := fun other pending =>
            traced.supervised.finishRuns other ((members other).mp pending).1
          active := fun other pending =>
            traced.supervised.active other ((members other).mp pending).1 }
      · have supervised := (Quiet.takeNext taken timer).supervised traced.supervised
        cases callback : entry.callback with
        | queryLms => exact queryLms_supervised scheduling supervised
        | checkForInactivity => exact (Quiet.checkForInactivity scheduling).supervised supervised
        | processLmQueryCommands => exact absurd callback timer
        | finishRun lm =>
          exact finishRun_supervised supervised (traced.supervised.finishRuns entry mem lm callback)
    · have supervised := (Quiet.advance advanced).supervised traced.supervised
      have scheduling := traced.scheduling.advance advanced
      cases call with
      | start draws => exact (Quiet.start _ draws).supervised supervised
      | notifyReportReceived triggered draws =>
        simp only [perform, notifyReportReceived, ite_isPending_cancel]
        split
        · exact queryLms_supervised (scheduling.cancel _) ((Quiet.cancel_query scheduling).supervised supervised)
        · exact supervised
      | stop => exact queries.elim
      | activate => exact queries.elim
      | deactivate => exact queries.elim
      | activateLm lm => exact queries.elim
      | deactivateLm lm => exact queries.elim
      | addLogicModule newLm => exact queries.elim
      | removeLogicModule name => exact queries.elim
      | setDefaultLogicModule newDefaultLm => exact queries.elim

theorem step_windowed_iff (traced : Traced ric) (windowed : Windowed ric)
    (queries : QueriesOnly action) (limited : 0 < ric.lmQueryMaxWaitTime)
    (moves : (system C).step ric action = some next) : Windowed next ↔ NothingLeft ric action := by
  obtain ⟨_, ⟨draws, entry, sim, rfl, taken, rfl⟩ | ⟨time, call, sim, rfl, advanced, rfl⟩⟩ :=
    step_cases moves
  · obtain ⟨mem, later, now, _, members⟩ := takeNext?_spec taken
    have scheduling := traced.scheduling.takeNext taken
    rw [nothingLeft_fire_iff taken]
    by_cases timer : entry.callback = .processLmQueryCommands
    · rw [timer]
      refine iff_of_true ?_ ⟨by simp, by simp⟩
      refine (processLmQueryCommands_windowed_iff windowed sim (fun other pending => ((members other).mp pending).1)
        (traced.supervised.active entry mem timer)).mpr (.inl ?_)
      rw [now]
      exact windowed.timers entry mem timer
    · have quiet := Quiet.takeNext taken timer
      have recorded : Recorded { ric with sim := sim } := traced.recorded.setSim (now ▸ later)
      have supervised := quiet.supervised traced.supervised
      have taking := quiet.windowed traced.scheduling scheduling windowed
      cases callback : entry.callback with
      | queryLms =>
        refine (queryLms_windowed_iff recorded scheduling taking limited).trans ?_
        rw [quiet.armedAt_iff]
        simp [now]
      | checkForInactivity =>
        refine iff_of_true ?_ ⟨by simp, by simp⟩
        exact (Quiet.checkForInactivity scheduling).windowed scheduling
          (checkForInactivity_scheduling scheduling) taking
      | processLmQueryCommands => exact absurd callback timer
      | finishRun lm =>
        refine (finishRun_windowed_iff recorded scheduling supervised taking limited
          (traced.supervised.finishRuns entry mem lm callback)).trans ?_
        rw [quiet.fills_iff traced.scheduling scheduling]
        simp [now, OthersReported, lmKey]
  · obtain ⟨later, now, _, members⟩ := advance?_spec advanced
    have scheduling := traced.scheduling.advance advanced
    have quiet := Quiet.advance advanced
    have recorded : Recorded { ric with sim := sim } := traced.recorded.setSim (now ▸ later)
    have advancing := quiet.windowed traced.scheduling scheduling windowed
    rw [nothingLeft_call_iff]
    cases call with
    | start draws =>
      refine iff_of_true ?_ (by simp)
      exact (Quiet.start _ draws).windowed scheduling (start_scheduling scheduling) advancing
    | notifyReportReceived triggered draws =>
      refine (notifyReportReceived_windowed_iff recorded scheduling advancing limited).trans ?_
      rw [quiet.armedAt_iff, now]
      constructor
      · intro holds active other same
        exact holds (Call.notifyReportReceived.inj same).1 active
      · rintro holds rfl active
        exact holds active draws rfl
    | stop => exact queries.elim
    | activate => exact queries.elim
    | deactivate => exact queries.elim
    | activateLm lm => exact queries.elim
    | deactivateLm lm => exact queries.elim
    | addLogicModule newLm => exact queries.elim
    | removeLogicModule name => exact queries.elim
    | setDefaultLogicModule newDefaultLm => exact queries.elim

theorem Configured.traced (configured : Configured ric) : Traced ric where
  recorded := configured.recorded
  scheduling := configured.scheduling
  supervised := {
    finishRuns := by simp [configured.nothingScheduled]
    finished := by simp [configured.noHistory]
    active := by simp [configured.nothingScheduled] }

theorem Configured.windowed (configured : Configured ric) : Windowed ric where
  timers := by simp [ArmedAt, configured.nothingScheduled]
  batches := by simp [configured.noHistory, batches]
  noneAbandoned := by simp [configured.noHistory, NoneAbandoned]
  pending := by simp [configured.noHistory, awaiting]

/-- In a run of queries, periodic and triggered, the wait window is respected in
every state exactly when no query finds a timer armed for an earlier instant and
no report completes a map with a key from before the cycle. -/
theorem windowed_throughout_iff {trace : List (Ric C × Action C)} (run : (system C).Run trace ric)
    (queries : ∀ entry ∈ trace, QueriesOnly entry.2)
    (limited : ∀ entry ∈ trace, 0 < entry.1.lmQueryMaxWaitTime) :
    ((∀ entry ∈ trace, Windowed entry.1) ∧ Windowed ric) ↔ ∀ entry ∈ trace, NothingLeft entry.1 entry.2 :=
  run.always_iff Traced Windowed (fun ric action => QueriesOnly action ∧ 0 < ric.lmQueryMaxWaitTime) NothingLeft
    (fun _ configured => ⟨Configured.traced configured, Configured.windowed configured⟩)
    (fun traced windowed allowed transition =>
      ⟨step_windowed_iff traced windowed allowed.1 allowed.2 transition,
        fun _ => step_traced traced allowed.1 transition⟩)
    (fun entry member => ⟨queries entry member, limited entry member⟩)

/-- Cycle 5 has a timer at 8. A report triggers a query at 7, before any module has
answered; the timer of cycle 5 then hands over the batch of cycle 7. -/
def overlapped : List (Action Nat) :=
  [.call 0 (.start (draws [] [])), .fire (draws [20, 20] [[10], [20]]),
   .call 7 (.notifyReportReceived true (draws [20, 20] [[11], [21]])),
   .fire (draws [] [])]

/-- The state after `overlapped`, with a wait window of three ticks. -/
def overlappedRic : Ric Nat :=
  ((system Nat).exec (twoModules 3 .drop) overlapped).get (by decide)

theorem overlappedRic_run : (system Nat).Run ((system Nat).steps (twoModules 3 .drop) overlapped) overlappedRic :=
  System.run_of_exec (twoModules_configured 3 .drop) (Option.some_get _).symm

/-- A timer armed for an earlier cycle can fire during a later one. -/
theorem earlier_timer_fires : ¬ ∀ (trace : List (Ric Nat × Action Nat)) (ric : Ric Nat), (system Nat).Run trace ric ->
    (∀ entry ∈ trace, QueriesOnly entry.2) ->
    (∀ entry ∈ trace, 0 < entry.1.lmQueryMaxWaitTime) -> Windowed ric := by
  intro alwaysWindowed
  have windowed := alwaysWindowed _ _ overlappedRic_run (by decide) (by decide)
  have history : ∃ batch, overlappedRic.history = [.filtered batch, .queried 7, .queried 5] ∧
      batch.time = 8 ∧ batch.cycle = 7 := ⟨_, rfl, rfl, rfl⟩
  obtain ⟨batch, history, time, cycle⟩ := history
  have timely := windowed.batches (batch, [.queried 7, .queried 5]) (by simp [history, batches])
  rcases timely with ends | ⟨⟨_, _, _, _, _, past⟩, _⟩
  · rw [time, cycle] at ends
    exact absurd ends (by decide)
  · cases past

/-- The run `overlapped` and the condition it fails. -/
theorem overlapped_windowed_iff : ((∀ entry ∈ (system Nat).steps (twoModules 3 .drop) overlapped, Windowed entry.1) ∧
      Windowed overlappedRic) ↔
    ∀ entry ∈ (system Nat).steps (twoModules 3 .drop) overlapped, NothingLeft entry.1 entry.2 :=
  windowed_throughout_iff overlappedRic_run (by decide) (by decide)

end Ns3.Oran.NearRtRic
