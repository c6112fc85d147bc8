import Mathlib.Data.List.Sort
import Mathlib.Data.Multiset.Basic
import Mathlib.Data.Multiset.Filter

/-!
# Agendas

An agenda is what is still to be served, each entry at its time and those of one time in their
order. Entries arrive, are served, or are withdrawn. When each arrives behind those of its time, and
a first one is served, times never decrease, nothing is lost or served twice, and each time is
served in order.
-/

namespace Ns3.Semantics

open List

universe u v w

/-- The entries that wait, and the history of those that arrived. -/
structure Agenda (Entry : Type u) where
  waiting : Multiset Entry
  arrived : List Entry
  served : List Entry
  withdrawn : Multiset Entry

namespace Agenda

variable {Entry : Type u} {Time : Type v} {Order : Type w}

def arrive (agenda : Agenda Entry) (entry : Entry) : Agenda Entry :=
  { agenda with waiting := entry ::ₘ agenda.waiting, arrived := agenda.arrived ++ [entry] }

def serve [DecidableEq Entry] (agenda : Agenda Entry) (entry : Entry) : Agenda Entry :=
  { agenda with waiting := agenda.waiting.erase entry, served := agenda.served ++ [entry] }

def withdraw [DecidableEq Entry] (agenda : Agenda Entry) (entry : Entry) : Agenda Entry :=
  { agenda with
    waiting := agenda.waiting.erase entry
    withdrawn := entry ::ₘ agenda.withdrawn }

variable [LinearOrder Time] [LinearOrder Order] (time : Entry -> Time) (order : Entry -> Order)

/-- The entries of one time. -/
def ofTime (moment : Time) (entries : List Entry) : List Entry :=
  entries.filter fun entry => time entry = moment

/-- Those that wait for a time, in their order, arrived in it behind those served. -/
def Lined (agenda : Agenda Entry) (moment : Time) : Prop :=
  ∃ queue : List Entry, (queue : Multiset Entry) = agenda.waiting.filter (fun entry => time entry = moment) ∧
      queue.Pairwise (fun first second => order first < order second) ∧
        (ofTime time moment agenda.served ++ queue).Sublist (ofTime time moment agenda.arrived)

/-- An agenda that has been kept up to now. -/
structure Kept (agenda : Agenda Entry) (now : Time) : Prop where
  account : (agenda.arrived : Multiset Entry) = agenda.waiting + (agenda.served : Multiset Entry) + agenda.withdrawn
  notLate : ∀ entry ∈ agenda.waiting, now ≤ time entry
  past : ∀ entry ∈ agenda.served, time entry ≤ now
  sorted : (agenda.served.map time).Pairwise (· ≤ ·)
  lined : ∀ moment, Lined time order agenda moment

variable {time order}

theorem ofTime_append (moment : Time) (entries : List Entry) (last : Entry) : ofTime time moment (entries ++ [last]) =
    ofTime time moment entries ++ if time last = moment then [last] else [] := by
  rw [ofTime, filter_append, filter_singleton]
  split <;> simp_all [ofTime]

theorem filter_erase [DecidableEq Entry] (moment : Time) (entry : Entry) (waiting : Multiset Entry) :
    (waiting.erase entry).filter (fun other => time other = moment) =
      (waiting.filter fun other => time other = moment).erase entry := by
  induction waiting using Quotient.inductionOn with
  | h entries =>
    simp only [Multiset.quot_mk_to_coe, Multiset.coe_erase, Multiset.filter_coe, erase_filter]

variable {agenda : Agenda Entry} {now : Time}

/-- At each time, entries are served as they arrived. -/
theorem Kept.fifo (kept : Kept time order agenda now) (moment : Time) :
    (ofTime time moment agenda.served).Sublist (ofTime time moment agenda.arrived) := by
  obtain ⟨queue, -, -, sublist⟩ := kept.lined moment
  exact (sublist_append_left _ queue).trans sublist

theorem kept_empty (now : Time) : Kept time order (⟨0, [], [], 0⟩ : Agenda Entry) now where
  account := rfl
  notLate := by simp
  past := by simp
  sorted := .nil
  lined := fun moment => ⟨[], rfl, .nil, List.Sublist.refl _⟩

variable {entry : Entry}

theorem Kept.arrive (kept : Kept time order agenda now) (notLate : now ≤ time entry)
    (behind : ∀ other ∈ agenda.waiting, time other = time entry -> order other < order entry) :
    Kept time order (agenda.arrive entry) now where
  account := by
    rw [Agenda.arrive, ← Multiset.coe_add, kept.account, Multiset.coe_singleton,
      Multiset.add_comm _ {entry}, ← Multiset.add_assoc, ← Multiset.add_assoc,
      Multiset.singleton_add]
  notLate := by
    intro other mem
    rcases Multiset.mem_cons.mp mem with rfl | old
    · exact notLate
    · exact kept.notLate other old
  past := kept.past
  sorted := kept.sorted
  lined := by
    intro moment
    obtain ⟨queue, contents, ordered, sublist⟩ := kept.lined moment
    by_cases same : time entry = moment
    · -- the entry joins the end of the queue for its time
      refine ⟨queue ++ [entry], ?_, ?_, ?_⟩
      · rw [Agenda.arrive, Multiset.filter_cons_of_pos (p := fun other => time other = moment) _ same,
          ← contents, ← Multiset.coe_add, Multiset.coe_singleton, Multiset.add_comm,
          Multiset.singleton_add]
      · refine pairwise_append.mpr ⟨ordered, pairwise_singleton _ _, ?_⟩
        intro other mem last isLast
        obtain rfl := mem_singleton.mp isLast
        rw [← Multiset.mem_coe, contents, Multiset.mem_filter] at mem
        exact behind other mem.1 (mem.2.trans same.symm)
      · rw [Agenda.arrive, ofTime_append, if_pos same, ← append_assoc]
        exact sublist.append (List.Sublist.refl _)
    · refine ⟨queue, ?_, ordered, ?_⟩
      · rw [Agenda.arrive, Multiset.filter_cons_of_neg (p := fun other => time other = moment) _ same, contents]
      · rw [Agenda.arrive, ofTime_append, if_neg same, append_nil]
        exact sublist

theorem Kept.serve [DecidableEq Entry] (kept : Kept time order agenda now) (mem : entry ∈ agenda.waiting)
    (earliest : ∀ other ∈ agenda.waiting, time entry ≤ time other)
    (first : ∀ other ∈ agenda.waiting, time other = time entry -> order entry ≤ order other) :
    Kept time order (agenda.serve entry) (time entry) where
  account := by
    rw [Agenda.serve, kept.account, ← Multiset.coe_add, Multiset.coe_singleton,
      Multiset.add_comm _ {entry}, ← Multiset.add_assoc, Multiset.add_comm _ {entry},
      Multiset.singleton_add, Multiset.cons_erase mem]
  notLate := fun other remains => earliest other (Multiset.mem_of_mem_erase remains)
  past := by
    intro other done
    rcases mem_append.mp done with old | last
    · exact (kept.past other old).trans (kept.notLate entry mem)
    · rw [mem_singleton.mp last]
  sorted := by
    rw [Agenda.serve, map_append, map_singleton]
    refine pairwise_append.mpr ⟨kept.sorted, pairwise_singleton _ _, ?_⟩
    intro earlier known last isLast
    obtain ⟨other, old, rfl⟩ := List.mem_map.mp known
    rw [mem_singleton.mp isLast]
    exact (kept.past other old).trans (kept.notLate entry mem)
  lined := by
    intro moment
    obtain ⟨queue, contents, ordered, sublist⟩ := kept.lined moment
    by_cases same : time entry = moment
    · -- the entry is the head of the queue for its time
      have inQueue : entry ∈ queue := by
        rw [← Multiset.mem_coe, contents]
        exact Multiset.mem_filter.mpr ⟨mem, same⟩
      cases queue with
      | nil => cases inQueue
      | cons head rest =>
        have isHead : entry = head := by
          refine (mem_cons.mp inQueue).resolve_right fun later => ?_
          have waits : head ∈ agenda.waiting.filter fun other => time other = moment := by
            rw [← contents]
            exact mem_cons_self
          rw [Multiset.mem_filter] at waits
          exact absurd ((pairwise_cons.mp ordered).1 entry later)
            (not_lt.mpr (first head waits.1 (waits.2.trans same.symm)))
        subst isHead
        refine ⟨rest, ?_, (pairwise_cons.mp ordered).2, ?_⟩
        · rw [Agenda.serve, filter_erase, ← contents, Multiset.coe_erase, erase_cons_head]
        · rw [Agenda.serve, ofTime_append, if_pos same, append_assoc]
          exact sublist
    · have absent : entry ∉ agenda.waiting.filter fun other => time other = moment :=
        fun known => same (Multiset.mem_filter.mp known).2
      refine ⟨queue, ?_, ordered, ?_⟩
      · rw [Agenda.serve, filter_erase, contents, Multiset.erase_of_notMem absent]
      · rw [Agenda.serve, ofTime_append, if_neg same, append_nil]
        exact sublist

theorem Kept.withdraw [DecidableEq Entry] (kept : Kept time order agenda now) (mem : entry ∈ agenda.waiting) :
    Kept time order (agenda.withdraw entry) now where
  account := by
    rw [Agenda.withdraw, kept.account]
    nth_rewrite 1 [← Multiset.cons_erase mem]
    rw [Multiset.cons_add, Multiset.cons_add, Multiset.add_cons]
  notLate := fun other remains => kept.notLate other (Multiset.mem_of_mem_erase remains)
  past := kept.past
  sorted := kept.sorted
  lined := by
    intro moment
    obtain ⟨queue, contents, ordered, sublist⟩ := kept.lined moment
    refine ⟨queue.erase entry, ?_, ordered.sublist erase_sublist, ?_⟩
    · rw [Agenda.withdraw, filter_erase, ← contents, Multiset.coe_erase]
    · exact ((List.Sublist.refl _).append erase_sublist).trans sublist

end Agenda

end Ns3.Semantics
