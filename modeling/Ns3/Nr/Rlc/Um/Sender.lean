import Ns3.Nr.Rlc.Um.Stream
import Ns3.Semantics.Run

/-!
# A sender of the unacknowledged mode

An SDU that is reported because of the delay of the one in front is sent all the same.
-/

namespace Ns3.Nr.Um

open Semantics Semantics.Framing TransmittingSide List

structure Sender where
  side : TransmittingSide
  /-- The SDUs that were not reported through the drop trace. -/
  accepted : List (List UInt8) := []
  sent : List UmPdu := []

namespace Sender

inductive Action where
  | transmitPdcpPdu (p : List UInt8) (now : Nat)
  | txOpportunity (bytes : UInt32)

def step (sender : Sender) : Action -> Option Sender
  | .transmitPdcpPdu p now =>
    -- An SDU has the header of PDCP at least.
    if p = [] then none
    else
      let (side, reported) := sender.side.doTransmitPdcpPdu p now
      some { sender with side := side, accepted := if reported then sender.accepted else sender.accepted ++ [p] }
  | .txOpportunity bytes =>
    match sender.side.doNotifyTxOpportunity bytes with
    | .ok (side, pdu) => some { sender with side := side, sent := sender.sent ++ pdu.toList }
    | .error _ => none

/-- A sender as it is created, with its attributes. -/
def Initial (sender : Sender) : Prop :=
  ∃ maxTxBufferSize enablePdcpDiscarding discardTimerMs packetDelayBudgetMs, sender = { side :=
        { maxTxBufferSize := maxTxBufferSize
          enablePdcpDiscarding := enablePdcpDiscarding
          discardTimerMs := discardTimerMs
          packetDelayBudgetMs := packetDelayBudgetMs } }

def system : System Sender Action where
  Initial := Initial
  step := step

/-- An SDU is stored that is reported because of the delay. -/
def ReportsStored (sender : Sender) : Action -> Prop
  | .transmitPdcpPdu p now => sender.side.hasRoom p = true ∧ sender.side.discards now = true
  | .txOpportunity _ => False

instance (sender : Sender) : DecidablePred (ReportsStored sender)
  | .transmitPdcpPdu p now =>
      inferInstanceAs (Decidable (sender.side.hasRoom p = true ∧ sender.side.discards now = true))
  | .txOpportunity _ => .isFalse id

variable {sender next : Sender} {action : Action} {stored : List (List UInt8)} {trace : List (Sender × Action)}

theorem step_streamed (streamed : sender.side.Streamed stored sender.sent) (moves : step sender action = some next) :
    ∃ added, next.side.Streamed (stored ++ added) next.sent ∧
      (¬ReportsStored sender action -> next.accepted = sender.accepted ++ added) ∧
      (ReportsStored sender action -> next.accepted = sender.accepted ∧ added ≠ []) := by
  cases action with
  | transmitPdcpPdu p now =>
    simp only [step] at moves
    split at moves
    · cases moves
    · rename_i nonempty
      cases moves
      have kept := @Streamed.doTransmitPdcpPdu _ _ _ _ now streamed nonempty
      simp only [ReportsStored]
      unfold TransmittingSide.doTransmitPdcpPdu at kept ⊢
      cases room : sender.side.hasRoom p with
      | true =>
        rw [room] at kept
        refine ⟨[p], kept, ?_, ?_⟩
        · intro stays
          rw [if_pos rfl, if_neg fun discards => stays ⟨rfl, discards⟩]
        · rintro ⟨-, discards⟩
          rw [if_pos rfl, if_pos discards]
          exact ⟨rfl, cons_ne_nil _ _⟩
      | false =>
        rw [room] at kept
        refine ⟨[], ?_, fun _ => ?_, fun reports => ?_⟩
        · rw [append_nil]
          exact kept
        · rw [if_neg Bool.false_ne_true, if_pos rfl, append_nil]
        · cases reports.1
  | txOpportunity bytes =>
    simp only [step] at moves
    refine ⟨[], ?_, fun _ => ?_, False.elim⟩
    · rw [append_nil]
      rcases @doNotifyTxOpportunity_cases sender.side stored sender.sent bytes streamed with
        ⟨failure, failed⟩ | none | ⟨side, packet, isSent, sends⟩
      · rw [failed] at moves
        cases moves
      · rw [none] at moves
        cases moves
        rw [Option.toList_none, append_nil]
        exact streamed
      · rw [isSent] at moves
        cases moves
        exact sends.streamed
    · split at moves
      · cases moves
        rw [append_nil]
      · cases moves

/-- What is sent carries all that was stored, which is what was not reported as long as nothing of
it was. -/
theorem run_streamed (run : system.Run trace sender) :
    ∃ stored, sender.side.Streamed stored sender.sent ∧ sender.accepted.length ≤ stored.length ∧
      (stored = sender.accepted ↔ ∀ entry ∈ trace, ¬ReportsStored entry.1 entry.2) := by
  induction run with
  | initial valid =>
    obtain ⟨maxTxBufferSize, enablePdcpDiscarding, discardTimerMs, packetDelayBudgetMs, rfl⟩ := valid
    exact ⟨[], .initial ⟨rfl, rfl, rfl⟩, Nat.le_refl _, iff_of_true rfl fun entry mem => nomatch mem⟩
  | @step trace sender action next prior moves ih =>
    obtain ⟨stored, streamed, atMost, same⟩ := ih
    obtain ⟨added, kept, whole, lost⟩ := step_streamed streamed moves
    refine ⟨stored ++ added, kept, ?_, ?_⟩
    · rw [length_append]
      by_cases reports : ReportsStored sender action
      · rw [(lost reports).1]
        omega
      · rw [whole reports, length_append]
        omega
    · have all : (∀ entry ∈ trace ++ [(sender, action)], ¬ReportsStored entry.1 entry.2) ↔
          (∀ entry ∈ trace, ¬ReportsStored entry.1 entry.2) ∧ ¬ReportsStored sender action := by
        simp only [forall_mem_append, forall_mem_singleton]
      rw [all, ← same]
      by_cases reports : ReportsStored sender action
      · obtain ⟨isAccepted, some⟩ := lost reports
        refine iff_of_false (fun equal => ?_) fun both => both.2 reports
        have length := congrArg List.length equal
        have pos := length_pos_of_ne_nil some
        rw [isAccepted, length_append] at length
        omega
      · rw [whole reports, append_left_inj]
        exact (and_iff_left reports).symm

/-- What a buffer and the pieces sent before make up is the accepted SDUs if it is what was stored. -/
theorem Streamed.stream_iff (streamed : sender.side.Streamed stored sender.sent) (accepted : List (List UInt8)) :
    Assembly.feedAll {} (sender.sent.flatMap UmPdu.pieces ++ pieces sender.side.txBuffer) = some ⟨accepted, none⟩ ↔
      stored = accepted := by
  rw [streamed.queued.stream, Option.some_inj, Assembly.mk.injEq]
  exact and_iff_left rfl

end Sender
end Ns3.Nr.Um
