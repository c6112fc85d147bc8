import Ns3.Nr.Rlc.DataFieldFraming
import Ns3.Nr.Rlc.SequenceWindow

/-!
# What the reassembly delivers

As long as the PDUs come in sequence, the reassembly delivers the SDUs that their pieces make up.
-/

namespace Ns3.Nr

open Semantics.Framing

/-- The reassembly has delivered the complete SDUs of a stream, and keeps the one that has begun. -/
structure Assembled (reassembly : Reassembly) (assembly : Assembly UInt8) (expected : Nat) : Prop where
  delivered : reassembly.delivered = assembly.complete
  waiting : assembly.begun = none -> reassembly.reassemblingState = .waitingS0Full
  kept : ∀ begun, assembly.begun = some begun ->
    reassembly.reassemblingState = .waitingSiSf ∧ reassembly.keepS0 = some begun
  isExpected : reassembly.expectedSeqNumber.value = Fin.ofNat 1024 expected

theorem Assembled.initial : Assembled {} {} 0 where
  delivered := rfl
  waiting _ := rfl
  kept _ begun := absurd begun (by simp)
  isExpected := rfl

theorem framing_cases (flags : UInt8) : flags &&& 0x03 = firstByte ||| lastByte ∨
    flags &&& 0x03 = firstByte ||| noLastByte ∨ flags &&& 0x03 = noFirstByte ||| lastByte ∨
      flags &&& 0x03 = noFirstByte ||| noLastByte := by
  have masked : (flags &&& 0x03).toNat = flags.toNat % 4 := (UInt8.toNat_and _ _).trans (Network.BitField.and_0x03 _)
  have cases : flags.toNat % 4 = 0 ∨ flags.toNat % 4 = 1 ∨ flags.toNat % 4 = 2 ∨ flags.toNat % 4 = 3 := by omega
  simp only [← UInt8.toNat_inj, masked]
  exact cases

variable {reassembly : Reassembly} {assembly next : Assembly UInt8} {expected : Nat} {sn : SequenceNumber10}
  {framing : UInt8} {first : List UInt8} {sdus : List (List UInt8)} {discards : Bool}

theorem deliver_assembled (delivered : reassembly.delivered = assembly.complete)
    (isExpected : reassembly.expectedSeqNumber.value = Fin.ofNat 1024 expected) (units : List (List UInt8)) :
    Assembled (reassembly.deliver units) (assembly.closeAll true units) expected where
  delivered := congrArg (· ++ units) delivered
  waiting _ := rfl
  kept _ begun := absurd begun (by simp [Assembly.closeAll])
  isExpected := isExpected

theorem deliverAndKeep_assembled (delivered : reassembly.delivered = assembly.complete)
    (isExpected : reassembly.expectedSeqNumber.value = Fin.ofNat 1024 expected) (first : List UInt8)
    (sdus : List (List UInt8)) :
    Assembled (reassembly.deliverAndKeep first sdus) (assembly.closeAll false (first :: sdus)) expected where
  delivered := congrArg (· ++ (first :: sdus).dropLast) delivered
  waiting none := absurd none (by simp [Assembly.closeAll])
  kept _ begun := ⟨rfl, begun⟩
  isExpected := isExpected

theorem reassembleAndDeliver_spec (assembled : Assembled reassembly assembly expected)
    (isExpected : sn.value = Fin.ofNat 1024 expected) (isFraming : framing &&& 0x03 = framing)
    (fed : assembly.feedAll (block (startsSdu framing) (endsSdu framing) (first :: sdus)) = some next) :
    ∃ final, reassembly.reassembleAndDeliver discards sn framing first sdus = .ok final ∧
      Assembled final next (expected + 1) := by
  have inSequence : sn.eq reassembly.expectedSeqNumber = true := by
    rw [SequenceNumber10.eq, isExpected, assembled.isExpected]
    exact decide_eq_true rfl
  have isNext : reassembly.expectedSeqNumber.increment.value = Fin.ofNat 1024 (expected + 1) := by
    rw [SequenceNumber10.increment, assembled.isExpected, SequenceNumber10.ofNat_add_left]
  rw [feedAll_block] at fed
  obtain ⟨unit, isUnit, rfl⟩ := Option.map_eq_some_iff.mp fed
  unfold Reassembly.reassembleAndDeliver
  rw [if_pos inSequence]
  dsimp only
  unfold Assembly.extend at isUnit
  have cases := framing_cases framing
  rw [isFraming] at cases
  cases begun : assembly.begun with
  | none =>
    rw [begun] at isUnit
    rw [assembled.waiting begun]
    rcases cases with rfl | rfl | rfl | rfl
    · cases isUnit
      refine ⟨_, rfl, deliver_assembled ?_ isNext _⟩
      exact assembled.delivered
    · cases isUnit
      refine ⟨_, rfl, deliverAndKeep_assembled ?_ isNext _ _⟩
      exact assembled.delivered
    · cases isUnit
    · cases isUnit
  | some kept =>
    obtain ⟨isState, isKept⟩ := assembled.kept kept begun
    rw [begun] at isUnit
    rw [isState]
    dsimp only [Reassembly.reassembleSegments]
    rw [isKept]
    rcases cases with rfl | rfl | rfl | rfl
    · cases isUnit
    · cases isUnit
    · cases isUnit
      refine ⟨_, rfl, deliver_assembled ?_ isNext _⟩
      exact assembled.delivered
    · cases isUnit
      refine ⟨_, rfl, deliverAndKeep_assembled ?_ isNext _ _⟩
      exact assembled.delivered

end Ns3.Nr
