import Mathlib.Data.List.Perm.Basic
import Mathlib.Data.List.Count
import Ns3.Internet.Arp.Cache

/-!
# Every packet is accounted for

What becomes of the packets `Lookup` takes over, and how long an entry waits. One invariant ties the
waiting entries to the one timer, as long as nobody marks a waiting entry: nothing would take its
pending packets out again.
-/

namespace Ns3.Internet.Arp

open Ns3.Semantics List Option Node Entry EntryState

variable {Addr Mac Packet : Type} [DecidableEq Addr] [DecidableEq Mac]

/-- The pending packets of all entries, with their destinations. -/
def pendings (cache : List (Addr × Entry Mac Packet)) : List (Addr × Packet) :=
  cache.flatMap fun row => row.2.pending.map fun packet => (row.1, packet)

/-- The packet whose fate an event is. -/
def settled : Event Addr Mac Packet -> Option (Addr × Packet)
  | .send dest packet => some (dest, packet)
  | .drop dest packet => some (dest, packet)
  | .discard dest packet => some (dest, packet)
  | _ => none

/-- The places of the packets: pending for a destination, sent, dropped or deleted. -/
def placed (node : Node Addr Mac Packet) : List (Addr × Packet) :=
  pendings node.cache ++ node.log.filterMap settled

/-- What the resolution promises of a node. -/
structure Sound (config : Config Addr Mac) (node : Node Addr Mac Packet) : Prop where
  /-- Every packet that `Lookup` took over is in one place. -/
  accounted : node.accepted.Perm (placed node)
  onlyWaiting : ∀ row ∈ node.cache, row.2.pending ≠ [] -> row.2.state = .waitReply
  bounded : ∀ row ∈ node.cache, row.2.pending.length ≤ max 1 config.pendingQueueSize
  oneTimer : node.scheduled.length ≤ 1
  timed : ∀ row ∈ node.cache, row.2.state = .waitReply -> node.scheduled ≠ []
  prompt : ∀ row ∈ node.cache, row.2.state = .waitReply ->
    node.now ≤ row.2.waitingSince + (config.maxRetries + 1) * config.waitReplyTimeout
  resolves : ∀ packet destination, (node.lookup config packet destination).isSome
  receives : ∀ arp, (node.receive config arp).isSome

/-- The address whose entry an action marks. -/
def Action.marks : Action Addr Mac Packet -> Option Addr
  | .markPermanent dest => some dest
  | .markAutoGenerated dest => some dest
  | .addEntry dest _ => some dest
  | _ => none

/-- No entry is marked while it waits for a reply. -/
def LeavesWaiting (node : Node Addr Mac Packet) (action : Action Addr Mac Packet) : Prop :=
  ∀ dest entry, action.marks = some dest -> node.find dest = some entry -> entry.state ≠ .waitReply

/-! ## The invariant -/

/-- An entry that waits has packets and an event that comes in time; any other entry is at rest. -/
structure EntryOk (config : Config Addr Mac) (scheduled : List (Nat × Nat))
    (entry : Entry Mac Packet) : Prop where
  waiting : entry.state = .waitReply -> entry.pending ≠ [] ∧
    entry.pending.length ≤ max 1 config.pendingQueueSize ∧ entry.retries ≤ config.maxRetries ∧
    ∃ event ∈ scheduled, event.2 ≤ entry.waitingSince + (entry.retries + 1) * config.waitReplyTimeout
  resting : entry.state ≠ .waitReply -> entry.retries = 0 ∧ entry.pending = []

/-- No event is scheduled, or just that of the timer, for the next timeout at the latest. -/
def TimerOk (config : Config Addr Mac) (node : Node Addr Mac Packet) : Prop :=
  node.scheduled = [] ∨ ∃ uid due, node.scheduled = [(uid, due)] ∧ node.waitReplyTimer = some uid ∧
    node.now ≤ due ∧ due ≤ node.now + config.waitReplyTimeout

structure Inv (config : Config Addr Mac) (node : Node Addr Mac Packet) : Prop where
  accounted : node.accepted.Perm (placed node)
  entries : ∀ row ∈ node.cache, EntryOk config node.scheduled row.2
  timer : TimerOk config node

section Entries

variable {Addr Mac Packet : Type} {config : Config Addr Mac} {entry : Entry Mac Packet} {dest : Addr}

variable {scheduled : List (Nat × Nat)} {node : Node Addr Mac Packet}

theorem EntryOk.mono {more : List (Nat × Nat)} (ok : EntryOk config scheduled entry)
    (included : ∀ event ∈ scheduled, event ∈ more) : EntryOk config more entry := by
  refine ⟨fun waits => ?_, ok.resting⟩
  obtain ⟨some, fits, tries, event, isScheduled, inTime⟩ := ok.waiting waits
  exact ⟨some, fits, tries, event, included event isScheduled, inTime⟩

theorem EntryOk.of_resting (rests : entry.state ≠ .waitReply)
    (retries : entry.retries = 0) (pending : entry.pending = []) : EntryOk config scheduled entry :=
  ⟨fun waits => absurd waits rests, fun _ => ⟨retries, pending⟩⟩

theorem pendings_append (first second : List (Addr × Entry Mac Packet)) :
    pendings (first ++ second) = pendings first ++ pendings second :=
  flatMap_append

theorem pendings_cons (row : Addr × Entry Mac Packet) (rest : List (Addr × Entry Mac Packet)) :
    pendings (row :: rest) = row.2.pending.map (fun packet => (row.1, packet)) ++ pendings rest :=
  rfl

theorem placed_record (node : Node Addr Mac Packet) (events : List (Event Addr Mac Packet)) :
    placed (node.record events) = placed node ++ events.filterMap settled := by
  rw [placed, placed, record, filterMap_append, append_assoc]

theorem settled_map {event : Packet -> Event Addr Mac Packet}
    (each : ∀ packet, settled (event packet) = some (dest, packet)) (packets : List Packet) :
    (packets.map event).filterMap settled = packets.map fun packet => (dest, packet) := by
  induction packets with
  | nil => rfl
  | cons packet packets ih =>
    rw [map_cons, filterMap_cons_some (each packet), ih, map_cons]

theorem settled_discarded (row : Addr × Entry Mac Packet) :
    (discarded row).filterMap settled = row.2.pending.map fun packet => (row.1, packet) := by
  apply settled_map
  intro packet
  rfl

theorem placed_delete (node : Node Addr Mac Packet) (deleted : Addr × Entry Mac Packet -> Bool) :
    (placed (node.delete deleted)).Perm (placed node) := by
  classical
  have parts (one : Addr × Packet) (cache : List (Addr × Entry Mac Packet)) :
      (pendings (cache.filter fun row => !deleted row)).count one +
        (((cache.filter deleted).flatMap discarded).filterMap settled).count one = (pendings cache).count one := by
    induction cache with
    | nil => rfl
    | cons row rest ih =>
      cases isDeleted : deleted row with
      | true =>
        rw [filter_cons_of_neg (by simp [isDeleted]), filter_cons_of_pos isDeleted,
          flatMap_cons, filterMap_append, count_append, settled_discarded,
          pendings_cons, count_append]
        omega
      | false =>
        rw [filter_cons_of_pos (by simp [isDeleted]),
          filter_cons_of_neg (by simp [isDeleted]), pendings_cons, pendings_cons,
          count_append, count_append]
        omega
  rw [perm_iff_count]
  intro one
  have all := parts one node.cache
  rw [delete, placed_record, placed, placed]
  simp only [count_append]
  omega

theorem placed_add (node : Node Addr Mac Packet) (dest : Addr) : placed (node.add dest) = placed node := by
  have nothing : pendings [(dest, (new : Entry Mac Packet))] = [] := rfl
  rw [placed, placed, add, pendings_append, nothing, append_nil]

theorem inv_record (inv : Inv config node)
    {events : List (Event Addr Mac Packet)} (unsettled : events.filterMap settled = []) :
    Inv config (node.record events) := by
  refine ⟨?_, inv.entries, inv.timer⟩
  rw [placed_record, unsettled, append_nil]
  exact inv.accounted

theorem inv_delete (inv : Inv config node)
    (deleted : Addr × Entry Mac Packet -> Bool) : Inv config (node.delete deleted) := by
  refine ⟨inv.accounted.trans (placed_delete node deleted).symm, ?_, inv.timer⟩
  intro row mem
  exact inv.entries row (mem_of_mem_filter mem)

/-- `Flush` may cancel the event: no entry that is left waits. -/
theorem inv_flush (inv : Inv config node) : Inv config node.flush := by
  have deleted := inv_delete inv fun row => row.2.state ≠ .staticAutogenerated
  rw [flush, cancel]
  split
  · refine ⟨deleted.accounted, ?_, ?_⟩
    · intro row mem
      have isStatic : row.2.state = .staticAutogenerated := by
        simpa using (mem_filter.mp mem).2
      have rests : row.2.state ≠ .waitReply := by
        rw [isStatic]
        exact noConfusion
      obtain ⟨retries, pending⟩ := (deleted.entries row mem).resting rests
      exact .of_resting rests retries pending
    · obtain none | ⟨uid, due, one, isTimer, -⟩ := deleted.timer
      · exact .inl (by rw [none]; rfl)
      · exact .inl (by rw [one, isTimer]; simp)
  · exact deleted

theorem inv_add (inv : Inv config node) (dest : Addr) : Inv config (node.add dest) := by
  refine ⟨?_, ?_, inv.timer⟩
  · rw [placed_add]
    exact inv.accounted
  · intro row mem
    obtain old | fresh := mem_append.mp mem
    · exact inv.entries row old
    · obtain rfl := mem_singleton.mp fresh
      exact .of_resting noConfusion rfl rfl

end Entries

section Finding

variable {Addr Mac Packet : Type} [DecidableEq Addr] {node : Node Addr Mac Packet}
  {entry changed : Entry Mac Packet} {dest : Addr} {packet : Packet}

section

variable (found : node.find dest = some entry)
include found

theorem find_split :
    ∃ before after, node.cache = before ++ (dest, entry) :: after ∧
      ∀ changed, (node.set dest changed).cache = before ++ (dest, changed) :: after := by
  obtain ⟨row, isRow, rfl⟩ := map_eq_some_iff.mp found
  obtain rfl := KeyedList.keyOf_of_lookup isRow
  obtain ⟨before, after, split, changes⟩ := KeyedList.modify_split isRow
  exact ⟨before, after, split, fun changed => changes _⟩

theorem mem_of_find : (dest, entry) ∈ node.cache := by
  obtain ⟨before, after, split, -⟩ := find_split found
  rw [split]
  exact mem_append_right _ mem_cons_self

theorem mem_set {row : Addr × Entry Mac Packet}
    (mem : row ∈ (node.set dest changed).cache) : row = (dest, changed) ∨ row ∈ node.cache := by
  obtain ⟨before, after, split, changes⟩ := find_split found
  rw [changes, mem_append, mem_cons] at mem
  rw [split, mem_append]
  tauto

end

theorem find_add (absent : node.find dest = none) : (node.add dest).find dest = some .new := by
  have nothing := map_eq_none_iff.mp absent
  rw [find, add, KeyedList.lookup_append_of_none nothing, KeyedList.lookup_cons, if_pos rfl, map_some]

@[simp] theorem log_set : (node.set dest changed).log = node.log := rfl

section

variable (found : node.find dest = some entry)
include found

theorem placed_set_append
    (joins : changed.pending = entry.pending ++ [packet]) :
    (placed (node.set dest changed)).Perm (placed node ++ [(dest, packet)]) := by
  classical
  obtain ⟨before, after, split, changes⟩ := find_split found
  rw [perm_iff_count]
  intro one
  simp only [placed, changes, split, pendings_append, pendings_cons, joins, map_append,
    map_singleton, count_append, log_set]
  omega

theorem placed_set_nil (leaves : changed.pending = [])
    {events : List (Event Addr Mac Packet)}
    (settle : events.filterMap settled = entry.pending.map fun packet => (dest, packet)) :
    (placed ((node.set dest changed).record events)).Perm (placed node) := by
  classical
  obtain ⟨before, after, split, changes⟩ := find_split found
  rw [perm_iff_count, placed_record]
  intro one
  simp only [placed, changes, split, pendings_append, pendings_cons, leaves, settle, map_nil,
    nil_append, count_append, log_set]
  omega

theorem placed_set_same (stay : changed.pending = entry.pending) : placed (node.set dest changed) = placed node := by
  obtain ⟨before, after, split, changes⟩ := find_split found
  rw [placed, placed, changes, split, pendings_append, pendings_append, pendings_cons, stay]
  rfl

end

end Finding

section Timer

variable {Addr Mac Packet : Type} {config : Config Addr Mac} {node : Node Addr Mac Packet}

theorem startWaitReplyTimer_spec (timer : TimerOk config node) : ∃ waitReplyTimer scheduled nextUid,
    node.startWaitReplyTimer config = { node with waitReplyTimer, scheduled, nextUid } ∧
    TimerOk config { node with waitReplyTimer, scheduled, nextUid } ∧
    (∀ event ∈ node.scheduled, event ∈ scheduled) ∧
    ∃ event ∈ scheduled, event.2 ≤ node.now + config.waitReplyTimeout := by
  obtain none | ⟨uid, due, one, isTimer, future, soon⟩ := timer
  · have idle : node.isPending = false := by rw [isPending, none, any_nil]
    refine ⟨some node.nextUid, _, _, if_neg (by rw [idle]; exact Bool.false_ne_true),
      .inr ⟨node.nextUid, node.now + config.waitReplyTimeout, ?_, rfl, Nat.le_add_right _ _,
        Nat.le_refl _⟩, ?_, (node.nextUid, _), ?_, Nat.le_refl _⟩
    · exact congrArg (· ++ _) none
    · exact fun event mem => mem_append_left _ mem
    · exact mem_append_right _ mem_cons_self
  · have runs : node.isPending = true := by
      rw [isPending, one, any_cons, isTimer, decide_eq_true rfl, Bool.true_or]
    refine ⟨node.waitReplyTimer, node.scheduled, node.nextUid, if_pos runs,
      .inr ⟨uid, due, one, isTimer, future, soon⟩, fun event mem => mem, (uid, due), ?_, soon⟩
    rw [one]
    exact mem_cons_self

end Timer

/-! ## The timeout -/

section Timeout

variable {Addr Mac Packet : Type} {config : Config Addr Mac} {node : Node Addr Mac Packet}

/-- What the handler makes of an entry when the event that is due was its own: its packets stay or
are dropped, and unless it asks for another event it does not wait any more. -/
structure HandledOk (config : Config Addr Mac) (now : Nat) (row : Addr × Entry Mac Packet)
    (handled : Handled Addr Mac Packet) : Prop where
  places : handled.row.2.pending.map (fun packet => (handled.row.1, packet)) ++
    handled.events.filterMap settled = row.2.pending.map fun packet => (row.1, packet)
  ok : ∀ uid, EntryOk config [(uid, now + config.waitReplyTimeout)] handled.row.2
  rests : handled.restart = false -> handled.row.2.state ≠ .waitReply

theorem handleEntry_spec {now : Nat} (uid : Nat) {row : Addr × Entry Mac Packet}
    (ok : EntryOk config [(uid, now)] row.2) :
    ∃ handled, handleEntry config now row = some handled ∧ HandledOk config now row handled := by
  rw [handleEntry]
  split
  next waits =>
    obtain ⟨some, fits, tries, event, isScheduled, inTime⟩ := ok.waiting waits
    obtain rfl := mem_singleton.mp isScheduled
    split
    next more =>
      refine ⟨_, rfl, ?_, fun uid => ⟨fun _ => ?_, fun rests => absurd waits rests⟩, Bool.noConfusion⟩
      · exact append_nil _
      · refine ⟨some, fits, more, (uid, _), mem_singleton_self _, ?_⟩
        have longer : (row.2.retries + 1 + 1) * config.waitReplyTimeout =
            (row.2.retries + 1) * config.waitReplyTimeout + config.waitReplyTimeout := Nat.succ_mul _ _
        change now + _ ≤ row.2.waitingSince + (row.2.retries + 1 + 1) * config.waitReplyTimeout
        omega
    next =>
      rw [markDead, if_pos (.inr (.inl waits))]
      refine ⟨_, rfl, ?_, fun uid => .of_resting noConfusion rfl rfl, fun _ => noConfusion⟩
      apply settled_map
      intro packet
      rfl
  next rests =>
    obtain ⟨retries, pending⟩ := ok.resting rests
    exact ⟨_, rfl, append_nil _, fun uid => .of_resting rests retries pending, fun _ => rests⟩

theorem mapM_forall₂ {Row Result : Type} {handle : Row -> Option Result}
    {good : Row -> Result -> Prop} {rows : List Row}
    (each : ∀ row ∈ rows, ∃ result, handle row = some result ∧ good row result) :
    ∃ results, rows.mapM handle = some results ∧ List.Forall₂ good rows results := by
  induction rows with
  | nil => exact ⟨[], rfl, .nil⟩
  | cons row rows ih =>
    obtain ⟨result, handled, isGood⟩ := each row mem_cons_self
    obtain ⟨results, handledRest, allGood⟩ :=
      ih fun other mem => each other (mem_cons_of_mem _ mem)
    exact ⟨result :: results, by simp [mapM_cons, handled, handledRest], .cons isGood allGood⟩

theorem exists_of_forall₂ {Row Result : Type} {good : Row -> Result -> Prop} {rows : List Row}
    {results : List Result} {result : Result} (all : List.Forall₂ good rows results)
    (mem : result ∈ results) : ∃ row, good row result := by
  induction all with
  | nil => cases mem
  | cons isGood _ ih =>
    obtain rfl | inRest := mem_cons.mp mem
    · exact ⟨_, isGood⟩
    · exact ih inRest

theorem placed_handled {now : Nat} {cache : List (Addr × Entry Mac Packet)}
    {handled : List (Handled Addr Mac Packet)} (all : List.Forall₂ (HandledOk config now) cache handled) :
    (pendings (handled.map Handled.row) ++ (handled.flatMap Handled.events).filterMap settled).Perm
      (pendings cache) := by
  classical
  induction all with
  | nil => exact .nil
  | @cons row first rows rest ok _ ih =>
    rw [perm_iff_count] at ih ⊢
    intro one
    have others := ih one
    rw [map_cons, pendings_cons, pendings_cons, ← ok.places, flatMap_cons, filterMap_append]
    simp only [count_append] at others ⊢
    omega

/-- A handler that is called by the event that is due keeps the invariant. -/
theorem handleWaitReplyTimeout_spec {uid : Nat} (inv : Inv config node) (due : node.scheduled = [(uid, node.now)]) :
    ∃ next, { node with scheduled := [] }.handleWaitReplyTimeout config = some next ∧ Inv config next := by
  have each : ∀ row ∈ node.cache, ∃ handled, handleEntry config node.now row = some handled ∧
      HandledOk config node.now row handled := by
    intro row mem
    exact handleEntry_spec uid (due ▸ inv.entries row mem)
  obtain ⟨handled, mapped, all⟩ := mapM_forall₂ each
  have places : node.accepted.Perm (pendings (handled.map Handled.row) ++
      (node.log ++ handled.flatMap Handled.events).filterMap settled) := by
    classical
    have moved := placed_handled all
    have before := inv.accounted
    rw [placed] at before
    rw [perm_iff_count] at moved before ⊢
    intro one
    have counted := moved one
    have countedBefore := before one
    simp only [filterMap_append, count_append] at counted countedBefore ⊢
    omega
  have rows : ∀ row ∈ handled.map Handled.row, ∃ one ∈ handled, one.row = row ∧
      ∃ old, HandledOk config node.now old one := by
    intro row mem
    obtain ⟨one, isHandled, rfl⟩ := List.mem_map.mp mem
    obtain ⟨old, ok⟩ := exists_of_forall₂ all isHandled
    exact ⟨one, isHandled, rfl, old, ok⟩
  rw [handleWaitReplyTimeout, mapped, map_some]
  split
  next restarts =>
    refine ⟨_, rfl, places, ?_, .inr ⟨_, _, rfl, rfl, Nat.le_add_right _ _, Nat.le_refl _⟩⟩
    intro row mem
    obtain ⟨one, -, rfl, old, ok⟩ := rows row mem
    exact ok.ok _
  next quiet =>
    refine ⟨_, rfl, places, ?_, .inl rfl⟩
    intro row mem
    obtain ⟨one, isHandled, rfl, old, ok⟩ := rows row mem
    have rests : one.row.2.state ≠ .waitReply := by
      apply ok.rests
      rw [List.any_eq_true] at quiet
      exact Bool.eq_false_iff.mpr fun restart => quiet ⟨one, isHandled, restart⟩
    obtain ⟨retries, pending⟩ := (ok.ok 0).resting rests
    exact .of_resting rests retries pending

end Timeout

/-! ## What each operation does -/

section Operations

variable {Addr Mac Packet : Type} [DecidableEq Addr] {config : Config Addr Mac}
  {node : Node Addr Mac Packet} {entry : Entry Mac Packet} {dest : Addr} {packet : Packet}

/-- The invariant once a packet is taken over. -/
abbrev Accepts (config : Config Addr Mac) (next : Node Addr Mac Packet) (dest : Addr) (packet : Packet) : Prop :=
  Inv config { next with accepted := next.accepted ++ [(dest, packet)] }

theorem markWaitReply_spec (now : Nat) (rests : entry.state = .alive ∨ entry.state = .dead)
    (empty : entry.pending = []) (packet : Packet) :
    ∃ waiting, entry.markWaitReply now packet = some waiting ∧ waiting.state = .waitReply ∧
      waiting.pending = entry.pending ++ [packet] ∧ waiting.retries = entry.retries ∧
      waiting.waitingSince = now :=
  ⟨_, if_pos ⟨rests, by rw [empty, length_nil]⟩, rfl, rfl, rfl, rfl⟩

theorem ne_waitReply (rests : entry.state = .alive ∨ entry.state = .dead) : entry.state ≠ .waitReply := by
  intro waits
  rw [waits] at rests
  obtain contrary | contrary := rests <;> cases contrary

theorem await_spec (inv : Inv config node) (found : node.find dest = some entry)
    (rests : entry.state = .alive ∨ entry.state = .dead) (packet : Packet) :
    ∃ next, node.await config packet dest entry = some next ∧ Accepts config next dest packet := by
  obtain ⟨retries, empty⟩ := (inv.entries _ (mem_of_find found)).resting (ne_waitReply rests)
  obtain ⟨waiting, marked, waits, pending, tries, since⟩ :=
    markWaitReply_spec node.now rests empty packet
  obtain ⟨waitReplyTimer, scheduled, nextUid, started, timer, kept, event, isScheduled, soon⟩ :=
    startWaitReplyTimer_spec (show TimerOk config (node.set dest waiting) from inv.timer)
  refine ⟨_, by rw [await, marked, map_some, started], ?_⟩
  constructor
  · have places := placed_set_append found pending
    have unsettled : [(.request dest : Event Addr Mac Packet)].filterMap settled = [] := rfl
    change (node.accepted ++ _).Perm (pendings _ ++ (node.log ++ [Event.request dest]).filterMap settled)
    rw [filterMap_append, unsettled, append_nil]
    exact (inv.accounted.append_right _).trans places.symm
  · intro row mem
    obtain rfl | unchanged := mem_set found mem
    · refine ⟨fun _ => ⟨?_, ?_, ?_, event, isScheduled, ?_⟩, fun rests => absurd waits rests⟩
      · rw [pending]
        exact append_ne_nil_of_right_ne_nil _ (cons_ne_nil _ _)
      · rw [pending, empty]
        exact Nat.le_max_left _ _
      · rw [tries, retries]
        exact Nat.zero_le _
      · rw [since, tries, retries, Nat.zero_add, Nat.one_mul]
        exact soon
    · exact (inv.entries row unchanged).mono kept
  · exact timer

theorem queue_spec (inv : Inv config node) (found : node.find dest = some entry)
    (waits : entry.state = .waitReply) (packet : Packet) :
    ∃ next, node.queue config packet dest entry = some next ∧ Accepts config next dest packet := by
  obtain ⟨some, fits, tries, inTime⟩ := (inv.entries _ (mem_of_find found)).waiting waits
  by_cases full : config.pendingQueueSize ≤ entry.pending.length
  · refine ⟨_, by rw [queue, updateWaitReply, if_pos waits, if_pos full]; rfl, ?_⟩
    refine ⟨?_, inv.entries, inv.timer⟩
    have places := placed_record node [.drop dest packet]
    change (node.accepted ++ _).Perm (placed (node.record [.drop dest packet]))
    rw [places]
    exact inv.accounted.append_right _
  · refine ⟨_, by rw [queue, updateWaitReply, if_pos waits, if_neg full]; rfl, ?_⟩
    refine ⟨?_, ?_, inv.timer⟩
    · exact (inv.accounted.append_right _).trans (placed_set_append found rfl).symm
    · intro row mem
      obtain rfl | unchanged := mem_set found mem
      · refine ⟨fun _ => ⟨?_, ?_, tries, inTime⟩, fun rests => absurd waits rests⟩
        · exact append_ne_nil_of_right_ne_nil _ (cons_ne_nil _ _)
        · rw [length_append, length_singleton]
          omega
      · exact inv.entries row unchanged

theorem lookup_spec (inv : Inv config node) (packet : Packet) (dest : Addr) :
    (∃ next, node.lookup config packet dest = some (next, .unresolved) ∧ Accepts config next dest packet) ∨
      ∃ macAddress, node.lookup config packet dest = some (node, .resolved macAddress) := by
  rw [Node.lookup]
  cases found : node.find dest with
  | none =>
    obtain ⟨next, awaits, accepts⟩ :=
      await_spec (inv_add inv dest) (find_add found) (.inl rfl) packet
    exact .inl ⟨next, by simp only [awaits, map_some], accepts⟩
  | some entry =>
    have awaits := fun rests => await_spec inv found rests packet
    have queues := fun waits => queue_spec inv found waits packet
    dsimp only
    cases state : entry.state with
    | alive =>
      obtain ⟨next, awaits, accepts⟩ := awaits (.inl state)
      split
      · exact .inl ⟨next, by simp only [awaits, map_some], accepts⟩
      · exact .inr ⟨_, rfl⟩
    | dead =>
      obtain ⟨next, awaits, accepts⟩ := awaits (.inr state)
      split
      · exact .inl ⟨next, by simp only [awaits, map_some], accepts⟩
      · refine .inl ⟨_, rfl, ?_, inv.entries, inv.timer⟩
        change (node.accepted ++ _).Perm (placed (node.record [.drop dest packet]))
        rw [placed_record]
        exact inv.accounted.append_right _
    | waitReply =>
      obtain ⟨next, queued, accepts⟩ := queues state
      refine .inl ⟨next, ?_, accepts⟩
      split <;> simp only [queued, map_some]
    | permanent =>
      have lasting : entry.isExpired config node.now = false := by
        simp only [isExpired, getTimeout, state]
      rw [lasting]
      exact .inr ⟨_, rfl⟩
    | staticAutogenerated =>
      have lasting : entry.isExpired config node.now = false := by
        simp only [isExpired, getTimeout, state]
      rw [lasting]
      exact .inr ⟨_, rfl⟩

theorem markAlive_spec (now : Nat) (waits : entry.state = .waitReply) (macAddress : Mac) :
    ∃ alive, entry.markAlive now macAddress = some alive ∧ alive.state = .alive ∧
      alive.retries = 0 ∧ alive.pending = entry.pending :=
  ⟨_, if_pos waits, rfl, rfl, rfl⟩

theorem receiveReply_spec (inv : Inv config node) (arp : ArpHeader Addr Mac) :
    ∃ next, node.receiveReply arp = some next ∧ Inv config next := by
  rw [receiveReply]
  cases found : node.find arp.sourceIpv4 with
  | none => exact ⟨_, rfl, inv_record inv rfl⟩
  | some entry =>
    dsimp only
    split
    next waits =>
      obtain ⟨alive, marked, state, retries, pending⟩ :=
        markAlive_spec node.now waits arp.sourceHardware
      rw [marked]
      refine ⟨_, rfl, ?_, ?_, inv.timer⟩
      · refine inv.accounted.trans (placed_set_nil found rfl ?_).symm
        rw [settled_map fun packet => rfl, pending]
      · intro row mem
        obtain rfl | unchanged := mem_set found mem
        · refine .of_resting ?_ retries rfl
          intro contrary
          cases state.symm.trans contrary
        · exact inv.entries row unchanged
    next => exact ⟨_, rfl, inv_record inv rfl⟩

theorem receive_spec [DecidableEq Mac] (inv : Inv config node) (arp : ArpHeader Addr Mac) :
    ∃ next, node.receive config arp = some next ∧ Inv config next := by
  rw [receive]
  induction config.localAddresses with
  | nil => exact ⟨node, rfl, inv⟩
  | cons addr addresses ih =>
    rw [receiveFor]
    split
    · exact ⟨_, rfl, inv_record inv rfl⟩
    · split
      · exact receiveReply_spec inv arp
      · exact ih

theorem inv_set_resting (inv : Inv config node) (found : node.find dest = some entry)
    (rests : entry.state ≠ .waitReply) {changed : Entry Mac Packet}
    (changedRests : changed.state ≠ .waitReply) (retries : changed.retries = 0)
    (pending : changed.pending = entry.pending) : Inv config (node.set dest changed) := by
  have empty := ((inv.entries _ (mem_of_find found)).resting rests).2
  refine ⟨?_, ?_, inv.timer⟩
  · rw [placed_set_same found pending]
    exact inv.accounted
  · intro row mem
    obtain rfl | unchanged := mem_set found mem
    · exact .of_resting changedRests retries (pending.trans empty)
    · exact inv.entries row unchanged

/-- Marking ends the waiting and leaves the pending packets alone. -/
def Marks (marked : Nat -> Entry Mac Packet -> Option (Entry Mac Packet)) : Prop :=
  ∀ {now entry changed}, marked now entry = some changed ->
    changed.state ≠ .waitReply ∧ changed.retries = 0 ∧ changed.pending = entry.pending

theorem marks_markStatic {state : EntryState} (other : state ≠ .waitReply) :
    Marks fun now (entry : Entry Mac Packet) => entry.markStatic state now := by
  intro now entry changed marked
  obtain ⟨-, same⟩ := ite_none_right_eq_some.mp marked
  cases same
  exact ⟨other, rfl, rfl⟩

theorem marks_addEntry (macAddress : Mac) : Marks fun now (entry : Entry Mac Packet) =>
    { entry with macAddress := some macAddress }.markAutoGenerated now := by
  intro now entry changed marked
  dsimp only [markAutoGenerated, markStatic] at marked
  obtain ⟨-, same⟩ := ite_none_right_eq_some.mp marked
  cases same
  exact ⟨noConfusion, rfl, rfl⟩

theorem inv_mark {next : Node Addr Mac Packet} {marked : Nat -> Entry Mac Packet -> Option (Entry Mac Packet)}
    (inv : Inv config node) (marks : Marks marked)
    (rests : ∀ entry, node.find dest = some entry -> entry.state ≠ .waitReply)
    (step : node.mark marked dest = some next) : Inv config next := by
  obtain ⟨entry, found, changes⟩ := bind_eq_some_iff.mp step
  obtain ⟨changed, isMarked, rfl⟩ := map_eq_some_iff.mp changes
  obtain ⟨changedRests, retries, pending⟩ := marks isMarked
  exact inv_set_resting inv found (rests entry found) changedRests retries pending

end Operations

/-! ## Runs -/

section Runs

variable {Addr Mac Packet : Type} [DecidableEq Addr] [DecidableEq Mac] {config : Config Addr Mac}
  {node next : Node Addr Mac Packet} {action : Action Addr Mac Packet}

theorem Inv.sound (inv : Inv config node) : Sound config node := by
  refine ⟨inv.accounted, ?_, ?_, ?_, ?_, ?_, ?_, ?_⟩
  · intro row mem some
    by_contra rests
    exact some ((inv.entries row mem).resting rests).2
  · intro row mem
    by_cases waits : row.2.state = .waitReply
    · exact ((inv.entries row mem).waiting waits).2.1
    · rw [((inv.entries row mem).resting waits).2]
      exact Nat.zero_le _
  · obtain none | ⟨uid, due, one, -⟩ := inv.timer
    · rw [none]
      exact Nat.zero_le _
    · rw [one]
      exact Nat.le_refl _
  · intro row mem waits none
    obtain ⟨-, -, -, event, isScheduled, -⟩ := (inv.entries row mem).waiting waits
    rw [none] at isScheduled
    cases isScheduled
  · intro row mem waits
    obtain ⟨-, -, tries, event, isScheduled, inTime⟩ := (inv.entries row mem).waiting waits
    have within : (row.2.retries + 1) * config.waitReplyTimeout ≤
        (config.maxRetries + 1) * config.waitReplyTimeout := Nat.mul_le_mul_right _ (by omega)
    obtain none | ⟨uid, due, one, -, future, -⟩ := inv.timer
    · rw [none] at isScheduled
      cases isScheduled
    · rw [one] at isScheduled
      obtain rfl := mem_singleton.mp isScheduled
      omega
  · intro packet dest
    obtain ⟨next, looked, -⟩ | ⟨macAddress, looked⟩ := lookup_spec inv packet dest <;>
      rw [looked] <;> rfl
  · intro arp
    obtain ⟨next, received, -⟩ := receive_spec inv arp
    rw [received]
    rfl

/-- Marking an entry that waits leaves its packets behind. -/
theorem not_sound_mark {marked : Nat -> Entry Mac Packet -> Option (Entry Mac Packet)} {dest : Addr}
    {entry : Entry Mac Packet} (inv : Inv config node) (marks : Marks marked)
    (found : node.find dest = some entry) (waits : entry.state = .waitReply)
    (step : node.mark marked dest = some next) : ¬ Sound config next := by
  obtain ⟨other, isOther, changes⟩ := bind_eq_some_iff.mp step
  cases found.symm.trans isOther
  obtain ⟨changed, isMarked, rfl⟩ := map_eq_some_iff.mp changes
  obtain ⟨changedRests, -, pending⟩ := marks isMarked
  intro sound
  obtain ⟨before, after, -, changes⟩ := find_split found
  apply changedRests
  apply sound.onlyWaiting (dest, changed)
  · rw [changes]
    exact mem_append_right _ mem_cons_self
  · rw [pending]
    exact ((inv.entries _ (mem_of_find found)).waiting waits).1

theorem inv_step (inv : Inv config node) (leaves : LeavesWaiting node action)
    (step : perform config node action = some next) : Inv config next := by
  cases action with
  | elapse later =>
    obtain ⟨⟨onwards, before⟩, same⟩ := ite_none_right_eq_some.mp step
    cases same
    refine ⟨inv.accounted, inv.entries, ?_⟩
    obtain none | ⟨uid, due, one, isTimer, future, soon⟩ := inv.timer
    · exact .inl none
    · have inTime := before (uid, due) (by rw [one]; exact mem_cons_self)
      exact .inr ⟨uid, due, one, isTimer, inTime, Nat.le_trans soon (Nat.add_le_add_right onwards _)⟩
  | lookup packet dest =>
    obtain ⟨result, looked, accepted⟩ := map_eq_some_iff.mp step
    obtain ⟨taken, unresolved, accepts⟩ | ⟨macAddress, resolved⟩ := lookup_spec inv packet dest
    · cases unresolved.symm.trans looked
      obtain rfl := accepted
      exact accepts
    · cases resolved.symm.trans looked
      obtain rfl := accepted
      exact inv
  | receive arp =>
    obtain ⟨received, same, kept⟩ := receive_spec inv arp
    cases same.symm.trans step
    exact kept
  | timeout =>
    rw [perform] at step
    obtain none | ⟨uid, due, one, -⟩ := inv.timer
    · rw [none] at step
      cases step
    · rw [one, find?_cons] at step
      by_cases isDue : due = node.now
      · subst isDue
        rw [decide_eq_true rfl] at step
        dsimp only at step
        rw [erase_cons_head] at step
        obtain ⟨handled, same, kept⟩ := handleWaitReplyTimeout_spec inv one
        cases same.symm.trans step
        exact kept
      · rw [decide_eq_false isDue] at step
        cases step
  | flush =>
    cases step
    exact inv_flush inv
  | removeAutoGeneratedEntries =>
    cases step
    exact inv_delete inv _
  | remove dest =>
    cases step
    exact inv_delete inv _
  | markPermanent dest =>
    exact inv_mark inv (marks_markStatic noConfusion)
      (fun entry found => leaves dest entry rfl found) step
  | markAutoGenerated dest =>
    exact inv_mark inv (marks_markStatic noConfusion)
      (fun entry found => leaves dest entry rfl found) step
  | addEntry dest macAddress =>
    rw [perform, addEntry] at step
    cases found : node.find dest with
    | none =>
      rw [found] at step
      apply inv_mark (inv_add inv dest) (marks_addEntry macAddress) _ step
      intro entry isNew
      cases (find_add found).symm.trans isNew
      exact noConfusion
    | some entry =>
      rw [found] at step
      exact inv_mark inv (marks_addEntry macAddress)
        (fun entry found => leaves dest entry rfl found) step

theorem not_sound_step (inv : Inv config node) (marks : ¬ LeavesWaiting node action)
    (step : perform config node action = some next) : ¬ Sound config next := by
  simp only [LeavesWaiting, not_forall, not_not] at marks
  obtain ⟨dest, entry, isMarked, found, waits⟩ := marks
  cases action with
  | markPermanent other =>
    cases isMarked
    exact not_sound_mark inv (marks_markStatic noConfusion) found waits step
  | markAutoGenerated other =>
    cases isMarked
    exact not_sound_mark inv (marks_markStatic noConfusion) found waits step
  | addEntry other macAddress =>
    cases isMarked
    rw [perform, addEntry, found] at step
    exact not_sound_mark inv (marks_addEntry macAddress) found waits step
  | elapse => cases isMarked
  | lookup => cases isMarked
  | receive => cases isMarked
  | timeout => cases isMarked
  | flush => cases isMarked
  | removeAutoGeneratedEntries => cases isMarked
  | remove => cases isMarked

/-- A run keeps the promise of the resolution exactly as long as nobody marks an entry that waits
for a reply. -/
theorem resolution_sound_iff {trace : List (Node Addr Mac Packet × Action Addr Mac Packet)}
    (run : (system Packet config).Run trace node) :
    ((∀ entry ∈ trace, Sound config entry.1) ∧ Sound config node) ↔
      ∀ entry ∈ trace, LeavesWaiting entry.1 entry.2 := by
  apply run.always_iff (Inv config) (Sound config) (fun _ _ => True) LeavesWaiting
  · rintro state ⟨now, rfl⟩
    have inv : Inv config (⟨now, [], none, [], 0, [], []⟩ : Node Addr Mac Packet) :=
      ⟨.nil, fun _ member => absurd member not_mem_nil, .inl rfl⟩
    exact ⟨inv, inv.sound⟩
  · intro state action next inv _ _ step
    have onlyIf : Sound config next -> LeavesWaiting state action := by
      intro sound
      by_contra marks
      exact not_sound_step inv marks step sound
    refine ⟨⟨onlyIf, fun leaves => (inv_step inv leaves step).sound⟩, fun sound => ?_⟩
    exact inv_step inv (onlyIf sound) step
  · exact fun _ _ => trivial

end Runs

/-- A node 1 with the default attributes. -/
def defaults : Config Nat Nat where
  aliveTimeout := 120000
  deadTimeout := 100000
  waitReplyTimeout := 1000
  maxRetries := 3
  pendingQueueSize := 3
  localAddresses := [1]
  deviceAddress := 11

/-- Before the first packet. -/
def idle : Node Nat Nat Nat :=
  ⟨0, [], none, [], 0, [], []⟩

theorem idle_initial : (system Nat defaults).Initial idle :=
  ⟨0, rfl⟩

/-- A packet to node 2, and its reply. -/
def answered : List (Action Nat Nat Nat) :=
  [.lookup 100 2, .elapse 3, .receive ⟨.reply, 2, 22, 1, 11⟩]

theorem resolution_sound_iff_answered :
    ∃ node, (system Nat defaults).Run ((system Nat defaults).steps idle answered) node ∧
      (((∀ entry ∈ (system Nat defaults).steps idle answered, Sound defaults entry.1) ∧ Sound defaults node) ↔
          ∀ entry ∈ (system Nat defaults).steps idle answered, LeavesWaiting entry.1 entry.2) :=
  ⟨_, System.run_of_exec idle_initial rfl, resolution_sound_iff (System.run_of_exec idle_initial rfl)⟩

/-- A packet to node 2, which is then added to the cache. -/
def addedLate : List (Action Nat Nat Nat) :=
  [.lookup 100 2, .addEntry 2 22]

/-- The packet stays with the entry, which does not wait any more. -/
theorem left_behind : ∃ node, (system Nat defaults).Run ((system Nat defaults).steps idle addedLate) node ∧
    ¬ Sound defaults node := by
  refine ⟨_, System.run_of_exec idle_initial rfl, fun sound => ?_⟩
  have waits := sound.onlyWaiting _ mem_cons_self (cons_ne_nil _ _)
  cases waits

end Ns3.Internet.Arp
