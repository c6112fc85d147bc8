import Mathlib.Algebra.BigOperators.Group.Finset.Piecewise
import Mathlib.Data.Fintype.Basic
import Ns3.Nr.Rlc.Am.TransmittingSide

/-!
# The buffers of PDUs that are not acknowledged

Each of the two buffers has a counter of its bytes. A PDU is in one of them at most, so that both
together are a map from numbers to PDUs, which a move between them does not change.
-/

namespace Ns3.Nr.Am

open Option Function UInt32

/-- The bytes of the PDU of an entry. -/
def RetxPdu.size (entry : RetxPdu) : Nat :=
  entry.pdu.elim 0 AmPdu.getSize

/-- The sum of the sizes of the PDUs in a buffer. -/
def heldBytes (buffer : Fin 1024 -> RetxPdu) : Nat :=
  ∑ sn, (buffer sn).size

variable {buffer : Fin 1024 -> RetxPdu} {side : TransmittingSide} {sn other : Fin 1024} {pdu : AmPdu}

theorem heldBytes_update (entry : RetxPdu) :
    heldBytes (update buffer sn entry) + (buffer sn).size = entry.size + heldBytes buffer := by
  have updated : (fun other => (update buffer sn entry other).size) =
      update (fun other => (buffer other).size) sn entry.size := by
    ext other
    by_cases same : other = sn
    · subst same
      simp
    · simp [same]
  have after := Finset.sum_update_of_mem (Finset.mem_univ sn) (fun other => (buffer other).size) entry.size
  have before := Finset.sum_update_of_mem (Finset.mem_univ sn) (fun other => (buffer other).size) (buffer sn).size
  rw [update_eq_self] at before
  rw [heldBytes, heldBytes, updated, after, before]
  omega

theorem exists_of_heldBytes (some : heldBytes buffer ≠ 0) : ∃ sn, (buffer sn).pdu ≠ none := by
  obtain ⟨sn, -, nonzero⟩ := Finset.exists_ne_zero_of_sum_ne_zero some
  refine ⟨sn, fun empty => nonzero ?_⟩
  rw [RetxPdu.size, empty, elim_none]

namespace TransmittingSide

/-- The PDU that is held under a number, in whichever buffer. -/
def stored (side : TransmittingSide) (sn : Fin 1024) : Option AmPdu :=
  (side.txedBuffer sn).pdu.or (side.retxBuffer sn).pdu

/-- No PDU is in both buffers, and the counters are the bytes in them. -/
structure BuffersCounted (side : TransmittingSide) : Prop where
  exclusive : ∀ sn, (side.txedBuffer sn).pdu = none ∨ (side.retxBuffer sn).pdu = none
  txedBufferSize : side.txedBufferSize = UInt32.ofNat (heldBytes side.txedBuffer)
  retxBufferSize : side.retxBufferSize = UInt32.ofNat (heldBytes side.retxBuffer)

theorem BuffersCounted.initial : BuffersCounted {} := by
  have empty : heldBytes (fun _ => {}) = 0 := Finset.sum_eq_zero fun _ _ => rfl
  refine ⟨fun _ => .inl rfl, ?_, ?_⟩
  · exact (congrArg ofNat empty).symm
  · exact (congrArg ofNat empty).symm

/-- A counter follows when the PDU of an entry is removed. -/
theorem ofNat_heldBytes_remove {entry : RetxPdu} (held : (buffer sn).pdu = some pdu) (empty : entry.pdu = none) :
    UInt32.ofNat (heldBytes buffer) - UInt32.ofNat pdu.getSize =
      UInt32.ofNat (heldBytes (update buffer sn entry)) := by
  have sum := @heldBytes_update buffer sn entry
  rw [RetxPdu.size, RetxPdu.size, held, empty, elim_some, elim_none, Nat.zero_add] at sum
  rw [← sum, UInt32.ofNat_add, UInt32.add_sub_cancel]

/-- A counter follows when a PDU is put into an entry that has none. -/
theorem ofNat_heldBytes_put {entry : RetxPdu} (empty : (buffer sn).pdu = none) (held : entry.pdu = some pdu) :
    ofNat (heldBytes buffer) + ofNat pdu.getSize = ofNat (heldBytes (update buffer sn entry)) := by
  have sum := @heldBytes_update buffer sn entry
  rw [RetxPdu.size, RetxPdu.size, held, empty, elim_some, elim_none, Nat.add_zero] at sum
  rw [sum, Nat.add_comm, ofNat_add]

theorem update_pdu (entry : RetxPdu) :
    (update buffer sn entry other).pdu = if other = sn then entry.pdu else (buffer other).pdu := by
  rw [update_apply]
  split <;> rfl

theorem stored_txed (held : (side.txedBuffer sn).pdu = some pdu) : side.stored sn = some pdu := by
  rw [stored, held, some_or]

theorem stored_retx (counted : side.BuffersCounted) (held : (side.retxBuffer sn).pdu = some pdu) :
    side.stored sn = some pdu := by
  rcases counted.exclusive sn with empty | empty
  · rw [stored, empty, none_or, held]
  · exact absurd (empty.symm.trans held) (by simp)

section Moves

variable (counted : side.BuffersCounted)

include counted

theorem moveToRetxBuffer_counted (held : (side.txedBuffer sn).pdu = some pdu) :
    (side.moveToRetxBuffer sn pdu).BuffersCounted := by
  have empty : (side.retxBuffer sn).pdu = none := by
    rcases counted.exclusive sn with none | none
    · exact absurd (none.symm.trans held) (by simp)
    · exact none
  refine ⟨fun other => ?_, ?_, ?_⟩
  · simp only [moveToRetxBuffer, update_pdu]
    by_cases same : other = sn
    · exact .inl (if_pos same)
    · rw [if_neg same, if_neg same]
      exact counted.exclusive other
  · exact (congrArg (· - _) counted.txedBufferSize).trans (ofNat_heldBytes_remove held rfl)
  · exact (congrArg (· + _) counted.retxBufferSize).trans (ofNat_heldBytes_put empty rfl)

theorem moveToRetxBuffer_stored (held : (side.txedBuffer sn).pdu = some pdu) :
    (side.moveToRetxBuffer sn pdu).stored = side.stored := by
  ext1 other
  by_cases same : other = sn
  · subst same
    rw [stored_txed held]
    exact stored_retx (moveToRetxBuffer_counted counted held) (by simp [moveToRetxBuffer])
  · simp [stored, moveToRetxBuffer, same]

theorem moveToTxedBuffer_counted (held : (side.retxBuffer sn).pdu = some pdu) :
    (side.moveToTxedBuffer sn pdu).BuffersCounted := by
  have empty : (side.txedBuffer sn).pdu = none := by
    rcases counted.exclusive sn with none | none
    · exact none
    · exact absurd (none.symm.trans held) (by simp)
  refine ⟨fun other => ?_, ?_, ?_⟩
  · simp only [moveToTxedBuffer, update_pdu]
    by_cases same : other = sn
    · exact .inr (if_pos same)
    · rw [if_neg same, if_neg same]
      exact counted.exclusive other
  · exact (congrArg (· + _) counted.txedBufferSize).trans (ofNat_heldBytes_put empty rfl)
  · exact (congrArg (· - _) counted.retxBufferSize).trans (ofNat_heldBytes_remove held rfl)

theorem moveToTxedBuffer_stored (held : (side.retxBuffer sn).pdu = some pdu) :
    (side.moveToTxedBuffer sn pdu).stored = side.stored := by
  ext1 other
  by_cases same : other = sn
  · subst same
    rw [stored_retx counted held]
    exact stored_txed (by simp [moveToTxedBuffer])
  · simp [stored, moveToTxedBuffer, same]

theorem releaseTxed_counted (held : (side.txedBuffer sn).pdu = some pdu) :
    (side.releaseTxed sn pdu).BuffersCounted := by
  refine ⟨fun other => ?_, ?_, counted.retxBufferSize⟩
  · simp only [releaseTxed, update_pdu]
    by_cases same : other = sn
    · exact .inl (if_pos same)
    · rw [if_neg same]
      exact counted.exclusive other
  · exact (congrArg (· - _) counted.txedBufferSize).trans (ofNat_heldBytes_remove held rfl)

theorem releaseRetx_counted (held : (side.retxBuffer sn).pdu = some pdu) :
    (side.releaseRetx sn pdu).BuffersCounted := by
  refine ⟨fun other => ?_, counted.txedBufferSize, ?_⟩
  · simp only [releaseRetx, update_pdu]
    by_cases same : other = sn
    · exact .inr (if_pos same)
    · rw [if_neg same]
      exact counted.exclusive other
  · exact (congrArg (· - _) counted.retxBufferSize).trans (ofNat_heldBytes_remove held rfl)

theorem releaseTxed_stored (held : (side.txedBuffer sn).pdu = some pdu) :
    (side.releaseTxed sn pdu).stored = update side.stored sn none := by
  have empty : (side.retxBuffer sn).pdu = none := by
    rcases counted.exclusive sn with none | none
    · exact absurd (none.symm.trans held) (by simp)
    · exact none
  ext1 other
  by_cases same : other = sn
  · subst same
    simp [stored, releaseTxed, empty]
  · simp [stored, releaseTxed, same]

theorem releaseRetx_stored (held : (side.retxBuffer sn).pdu = some pdu) :
    (side.releaseRetx sn pdu).stored = update side.stored sn none := by
  have empty : (side.txedBuffer sn).pdu = none := by
    rcases counted.exclusive sn with none | none
    · exact none
    · exact absurd (none.symm.trans held) (by simp)
  ext1 other
  by_cases same : other = sn
  · subst same
    simp [stored, releaseRetx, empty]
  · simp [stored, releaseRetx, same]

theorem store_counted (empty : side.stored sn = none) : (side.store sn pdu).BuffersCounted := by
  obtain ⟨noTxed, noRetx⟩ := or_eq_none_iff.mp empty
  refine ⟨fun other => ?_, ?_, counted.retxBufferSize⟩
  · by_cases same : other = sn
    · subst same
      exact .inr noRetx
    · simp only [store, update_pdu, if_neg same]
      exact counted.exclusive other
  · exact (congrArg (· + _) counted.txedBufferSize).trans (ofNat_heldBytes_put noTxed rfl)

end Moves

theorem store_stored : (side.store sn pdu).stored = update side.stored sn (some pdu) := by
  ext1 other
  by_cases same : other = sn
  · subst same
    simp [stored, store]
  · simp [stored, store, same]

end TransmittingSide
end Ns3.Nr.Am
