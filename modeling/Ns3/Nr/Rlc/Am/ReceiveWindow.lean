import Ns3.Nr.Rlc.Am.ReceivingSide
import Ns3.Nr.Rlc.ReassemblyFraming

/-!
# The receiving window

Behind the variables of the receiving side stand unreduced numbers, and behind the reception buffer
the PDUs that have been placed in it so far. Those below VR(R) have been reassembled.
-/

namespace Ns3.Nr.Am.ReceivingSide

open SequenceNumber10 Semantics.Framing List Option Function Nat NrRlcAmHeader

/-- The PDUs that have been placed in the reception buffer, under their numbers. -/
abbrev Placed := Nat -> Option AmPdu

/-- The receiving side in terms of VR(R), VR(MS) and VR(H), between two of its loops. -/
structure Buffered (side : ReceivingSide) (vrR vrMs vrH : Nat) (placed : Placed) : Prop where
  isVrR : side.vrR = reading vrR vrR
  isVrMs : side.vrMs = reading vrR vrMs
  isVrH : side.vrH = reading vrR vrH
  vrR_vrMs : vrR ≤ vrMs
  vrMs_vrH : vrMs ≤ vrH
  vrH_window : vrH ≤ vrR + windowSize
  held : ∀ sn buffer, side.rxonBuffer sn = some buffer ↔
    ∃ n pdu, vrR ≤ n ∧ placed n = some pdu ∧ sn = Fin.ofNat 1024 n ∧ buffer = ⟨[pdu], true⟩
  below_vrR : ∀ n < vrR, placed n ≠ none
  below_vrH : ∀ n, placed n ≠ none -> n < vrH

variable {side : ReceivingSide} {vrR vrMs vrH n m : Nat} {placed : Placed} {pdu : AmPdu}

namespace Buffered

variable (buffered : side.Buffered vrR vrMs vrH placed)

include buffered

theorem rxonBuffer_reading (above : vrR ≤ n) (below : n < vrR + 1024) :
    side.rxonBuffer (Fin.ofNat 1024 n) = (placed n).map fun pdu => ⟨[pdu], true⟩ := by
  have window := buffered.vrH_window
  have size : windowSize = 512 := rfl
  ext1 buffer
  rw [buffered.held, map_eq_some_iff]
  constructor
  · rintro ⟨k, pdu, isAbove, isPlaced, same, rfl⟩
    have isBelow := buffered.below_vrH k (by simp [isPlaced])
    obtain rfl := (ofNat_inj (by omega) (by omega)).mp same
    exact ⟨pdu, isPlaced, rfl⟩
  · rintro ⟨pdu, isPlaced, rfl⟩
    exact ⟨n, pdu, above, isPlaced, rfl, rfl⟩

theorem complete_reading {base : Nat} (above : vrR ≤ n) (below : n < vrR + 1024) :
    side.complete (reading base n) = (placed n).isSome := by
  rw [complete, reading_value, buffered.rxonBuffer_reading above below]
  cases placed n <;> rfl

theorem advanceVrMs_spec {first rounds : Nat} (from_ : first ≤ vrMs) (near : vrH < first + 1024)
    (enough : vrH - vrMs < rounds) :
    ∃ final, advanceVrMs (first % 1024) rounds side = .ok { side with vrMs := reading vrR final } ∧
      ({ side with vrMs := reading vrR final } : ReceivingSide).Buffered vrR final vrH placed ∧
      vrMs ≤ final ∧ placed final = none := by
  have window := buffered.vrH_window
  have size : windowSize = 512 := rfl
  have order := buffered.vrR_vrMs
  have below := buffered.vrMs_vrH
  induction rounds generalizing side vrMs with
  | zero => omega
  | succ rounds ih =>
    unfold advanceVrMs
    rw [buffered.isVrMs, buffered.complete_reading order (by omega)]
    cases isPlaced : placed vrMs with
    | none =>
      have same : { side with vrMs := reading vrR vrMs } = side := by rw [← buffered.isVrMs]
      refine ⟨vrMs, ?_, ?_, le_refl _, isPlaced⟩ <;> rw [same]
      · rfl
      · exact buffered
    | some pdu =>
      have less := buffered.below_vrH vrMs (by simp [isPlaced])
      have moved : ({ side with vrMs := reading vrR (vrMs + 1) } : ReceivingSide).Buffered vrR (vrMs + 1) vrH placed :=
        ⟨buffered.isVrR, rfl, buffered.isVrH, by omega, less, window, buffered.held, buffered.below_vrR,
          buffered.below_vrH⟩
      have other : first % 1024 ≠ (reading vrR (vrMs + 1)).getValue := by
        rw [reading_getValue]
        omega
      obtain ⟨final, isFinal, kept, more, missing⟩ := @ih
        { side with vrMs := reading vrR (vrMs + 1) } (vrMs + 1) moved (by omega) (by omega) (by omega) less
      refine ⟨final, ?_, kept, by omega, missing⟩
      simp only [reading_increment]
      rw [if_pos other]
      exact isFinal

theorem place_spec (above : vrR ≤ n) (below : n < vrR + windowSize) (pdu : AmPdu) :
    ∃ next, side.place (reading vrR n) pdu = .ok next ∧
      next = { side with rxonBuffer := next.rxonBuffer } ∧
      ∀ final : ReceivingSide,
        final = (if (reading vrR n).ge next.vrH then { next with vrH := (reading vrR n).add 1 } else next) ->
        final.Buffered vrR vrMs (max vrH (n + 1)) (update placed n (some ((placed n).getD pdu))) ∧
          final = { side with rxonBuffer := final.rxonBuffer, vrH := final.vrH } := by
  have window := buffered.vrH_window
  have size : windowSize = 512 := rfl
  have order := buffered.vrR_vrMs
  have further := buffered.vrMs_vrH
  suffices placing : ∃ next, side.place (reading vrR n) pdu = .ok next ∧
      next = { side with rxonBuffer := next.rxonBuffer } ∧
      ∀ sn buffer, next.rxonBuffer sn = some buffer ↔ ∃ k q, vrR ≤ k ∧
        update placed n (some ((placed n).getD pdu)) k = some q ∧ sn = Fin.ofNat 1024 k ∧
          buffer = ⟨[q], true⟩ by
    obtain ⟨next, isNext, same, held⟩ := placing
    refine ⟨next, isNext, same, ?_⟩
    have isVrH : next.vrH = reading vrR vrH := by
      rw [same]
      exact buffered.isVrH
    rintro final isFinal
    rw [isVrH, reading_ge above (by omega) (by omega) (by omega)] at isFinal
    have known : ∀ k, update placed n (some ((placed n).getD pdu)) k ≠ none -> k < max vrH (n + 1) := by
      intro k isPlaced
      by_cases isNew : k = n
      · omega
      · rw [update_of_ne isNew] at isPlaced
        have old := buffered.below_vrH k isPlaced
        omega
    have passed : ∀ k < vrR, update placed n (some ((placed n).getD pdu)) k ≠ none := by
      intro k isBelow
      rw [update_of_ne (by omega)]
      exact buffered.below_vrR k isBelow
    by_cases higher : vrH ≤ n
    · rw [if_pos (decide_eq_true higher), reading_add] at isFinal
      subst isFinal
      have isMax : max vrH (n + 1) = n + 1 := by omega
      rw [isMax] at known ⊢
      refine ⟨⟨?_, ?_, rfl, order, by omega, by omega, held, passed, known⟩, ?_⟩
      · rw [same]
        exact buffered.isVrR
      · rw [same]
        exact buffered.isVrMs
      · rw [same]
    · rw [if_neg (by simpa using higher)] at isFinal
      subst isFinal
      have isMax : max vrH (n + 1) = vrH := by omega
      rw [isMax] at known ⊢
      refine ⟨⟨?_, ?_, isVrH, order, further, window, held, passed, known⟩, ?_⟩
      · rw [same]
        exact buffered.isVrR
      · rw [same]
        exact buffered.isVrMs
      · rw [isVrH, ← buffered.isVrH, ← same]
  unfold place
  rw [reading_value, buffered.rxonBuffer_reading above (by omega)]
  cases isPlaced : placed n with
  | some old =>
    refine ⟨side, rfl, rfl, ?_⟩
    rw [getD_some, ← isPlaced, update_eq_self]
    exact buffered.held
  | none =>
    refine ⟨_, rfl, rfl, fun sn buffer => ?_⟩
    dsimp only
    rw [getD_none]
    by_cases same : sn = Fin.ofNat 1024 n
    · subst same
      rw [update_self]
      constructor
      · intro isBuffer
        exact ⟨n, pdu, above, update_self _ _ _, rfl, (some.inj isBuffer).symm⟩
      · rintro ⟨k, q, isAbove, isQ, same, rfl⟩
        by_cases isNew : k = n
        · subst isNew
          rw [update_self] at isQ
          rw [some.inj isQ]
        · rw [update_of_ne isNew] at isQ
          have isBelow := buffered.below_vrH k (by simp [isQ])
          exact absurd ((ofNat_inj (by omega) (by omega)).mp same).symm isNew
    · rw [update_of_ne same, buffered.held]
      constructor
      · rintro ⟨k, q, isAbove, isQ, rfl, rfl⟩
        have isOld : k ≠ n := by
          rintro rfl
          exact same rfl
        exact ⟨k, q, isAbove, by rwa [update_of_ne isOld], rfl, rfl⟩
      · rintro ⟨k, q, isAbove, isQ, rfl, rfl⟩
        have isOld : k ≠ n := by
          rintro rfl
          exact same rfl
        rw [update_of_ne isOld] at isQ
        exact ⟨k, q, isAbove, isQ, rfl, rfl⟩

theorem incrementVrR_spec (isPlaced : placed vrR ≠ none) (missing : placed vrMs = none) :
    side.incrementVrR.Buffered (vrR + 1) vrMs vrH placed where
  isVrR := by
    rw [incrementVrR, buffered.isVrR, reading_increment]
    rfl
  isVrMs := by
    rw [incrementVrR, buffered.isVrR, buffered.isVrMs, reading_increment]
    rfl
  isVrH := by
    rw [incrementVrR, buffered.isVrR, buffered.isVrH, reading_increment]
    rfl
  vrR_vrMs := by
    have order := buffered.vrR_vrMs
    have other : vrR ≠ vrMs := by
      rintro rfl
      exact isPlaced missing
    omega
  vrMs_vrH := buffered.vrMs_vrH
  vrH_window := by
    have window := buffered.vrH_window
    omega
  held sn buffer := by
    have window := buffered.vrH_window
    have size : windowSize = 512 := rfl
    have isVrR : side.vrR.value = Fin.ofNat 1024 vrR := by rw [buffered.isVrR, reading_value]
    rw [incrementVrR]
    dsimp only
    rw [isVrR]
    by_cases same : sn = Fin.ofNat 1024 vrR
    · subst same
      refine iff_of_false (by simp) ?_
      rintro ⟨k, q, isAbove, isQ, same, rfl⟩
      have isBelow := buffered.below_vrH k (by simp [isQ])
      have equal := (ofNat_inj (by omega) (by omega)).mp same
      omega
    · rw [update_of_ne same, buffered.held]
      constructor
      · rintro ⟨k, q, isAbove, isQ, rfl, rfl⟩
        have other : k ≠ vrR := by
          rintro rfl
          exact same rfl
        exact ⟨k, q, by omega, isQ, rfl, rfl⟩
      · rintro ⟨k, q, isAbove, isQ, rfl, rfl⟩
        exact ⟨k, q, by omega, isQ, rfl, rfl⟩
  below_vrR k isBelow := by
    by_cases same : k = vrR
    · exact same ▸ isPlaced
    · exact buffered.below_vrR k (by omega)
  below_vrH := buffered.below_vrH

end Buffered

/-- A PDU continues a stream, of which the part in front of each number is given. -/
structure InStream (assemblyAt : Nat -> Assembly UInt8) (n : Nat) (pdu : AmPdu) : Prop where
  number : pdu.header.sequenceNumber.value = Fin.ofNat 1024 n
  framing : pdu.header.framingInfo &&& 0x03 = pdu.header.framingInfo
  content : ∃ first sdus,
    cutPacket pdu.header.extensionBits pdu.header.lengthIndicators pdu.data = some (first, sdus) ∧
      (assemblyAt n).feedAll (block (startsSdu pdu.header.framingInfo) (endsSdu pdu.header.framingInfo)
        (first :: sdus)) = some (assemblyAt (n + 1))

variable {assemblyAt : Nat -> Assembly UInt8}

theorem reassembleAndDeliver_spec (inStream : InStream assemblyAt n pdu)
    (assembled : Assembled side.reassembly (assemblyAt n) n) :
    ∃ reassembly, side.reassembleAndDeliver pdu = .ok { side with reassembly := reassembly } ∧
      Assembled reassembly (assemblyAt (n + 1)) (n + 1) := by
  obtain ⟨first, sdus, isCut, fed⟩ := inStream.content
  obtain ⟨reassembly, isReassembly, further⟩ := @Nr.reassembleAndDeliver_spec side.reassembly (assemblyAt n)
    (assemblyAt (n + 1)) n pdu.header.sequenceNumber pdu.header.framingInfo first sdus false assembled
    inStream.number inStream.framing fed
  refine ⟨reassembly, ?_, further⟩
  unfold reassembleAndDeliver
  rw [isCut]
  dsimp only
  rw [isReassembly]

/-- VR(R) moves to the first PDU that has not been received, and what is below is reassembled. -/
theorem advanceVrR_spec (buffered : side.Buffered vrR vrMs vrH placed)
    (assembled : Assembled side.reassembly (assemblyAt vrR) vrR)
    (inStream : ∀ n pdu, placed n = some pdu -> InStream assemblyAt n pdu) (missing : placed vrMs = none)
    {first rounds : Nat} (from_ : first ≤ vrR) (near : vrH < first + 1024) (enough : vrH - vrR < rounds) :
    ∃ final reached, advanceVrR (first % 1024) rounds side = .ok final ∧
      final.Buffered reached vrMs vrH placed ∧ Assembled final.reassembly (assemblyAt reached) reached ∧
      vrR ≤ reached ∧ placed reached = none ∧ final.reorderingTimer = side.reorderingTimer ∧
      ∀ x, side.vrX = reading vrR x -> final.vrX = reading reached x := by
  induction rounds generalizing side vrR with
  | zero => omega
  | succ rounds ih =>
    have window := buffered.vrH_window
    have order := buffered.vrR_vrMs
    have below := buffered.vrMs_vrH
    have isVrR : side.vrR.value = Fin.ofNat 1024 vrR := by rw [buffered.isVrR, reading_value]
    unfold advanceVrR
    rw [isVrR, buffered.rxonBuffer_reading (le_refl _) (by omega)]
    cases isPlaced : placed vrR with
    | none => exact ⟨side, vrR, rfl, buffered, assembled, le_refl _, isPlaced, rfl, fun _ same => same⟩
    | some pdu =>
      have less := buffered.below_vrH vrR (by simp [isPlaced])
      obtain ⟨reassembly, isReassembly, further⟩ := reassembleAndDeliver_spec (inStream vrR pdu isPlaced) assembled
      have kept : ({ side with reassembly := reassembly } : ReceivingSide).Buffered vrR vrMs vrH placed :=
        ⟨buffered.isVrR, buffered.isVrMs, buffered.isVrH, order, below, window, buffered.held, buffered.below_vrR,
          buffered.below_vrH⟩
      have moved := kept.incrementVrR_spec (by simp [isPlaced]) missing
      have other : first % 1024 ≠
        ({ side with reassembly := reassembly } : ReceivingSide).incrementVrR.vrR.getValue := by
        rw [moved.isVrR, reading_getValue]
        omega
      obtain ⟨final, reached, isFinal, finalBuffered, finalAssembled, more, isMissing, timer, base⟩ :=
        @ih ({ side with reassembly := reassembly } : ReceivingSide).incrementVrR (vrR + 1) moved
          further (by omega) (by omega)
      refine ⟨final, reached, ?_, finalBuffered, finalAssembled, by omega, isMissing, timer, fun x isX => base x ?_⟩
      · simp only [map_some, isReassembly, Except.bind]
        rw [if_pos other]
        exact isFinal
      · rw [incrementVrR]
        rw [isX, buffered.isVrR, reading_increment]
        rfl

/-- The receiving side between two events: VR(R) and VR(MS) are the first numbers of their ranges
that have not been received, the reordering timer runs for a number in the window, and what is below
VR(R) has been reassembled. -/
structure Receiving (side : ReceivingSide) (vrR vrMs vrH : Nat) (placed : Placed)
    (assemblyAt : Nat -> Assembly UInt8) : Prop where
  buffered : side.Buffered vrR vrMs vrH placed
  isVrMr : side.vrMr = reading vrR (vrR + windowSize)
  vrR_missing : placed vrR = none
  vrMs_missing : placed vrMs = none
  timer : side.reorderingTimer = true -> ∃ vrX, side.vrX = reading vrR vrX ∧ vrR < vrX ∧ vrX ≤ vrH
  assembled : Assembled side.reassembly (assemblyAt vrR) vrR

theorem Receiving.initial (empty : assemblyAt 0 = {}) : Receiving {} 0 0 0 (fun _ => none) assemblyAt where
  buffered := ⟨rfl, rfl, rfl, le_refl _, le_refl _, zero_le _, fun sn buffer => by simp,
    fun n below => absurd below (not_lt_zero n), fun n isPlaced => absurd rfl isPlaced⟩
  isVrMr := rfl
  vrR_missing := rfl
  vrMs_missing := rfl
  timer := by simp
  assembled := empty ▸ Assembled.initial

theorem isInsideReceivingWindow_reading (isVrR : side.vrR = reading vrR vrR)
    (isVrMr : side.vrMr = reading vrR (vrR + windowSize)) {sn : SequenceNumber10}
    (isValue : sn.value = Fin.ofNat 1024 n) (above : vrR ≤ n) (below : n < vrR + 1024) :
    side.isInsideReceivingWindow sn = decide (n < vrR + windowSize) := by
  have size : windowSize = 512 := rfl
  have isReading : sn.setModulusBase side.vrR.getValue = reading vrR n := by
    rw [isVrR, SequenceNumber10.setModulusBase, isValue]
    rfl
  unfold isInsideReceivingWindow
  dsimp only
  rw [isReading, isVrR, isVrMr, reading_getValue, reading_setModulusBase, reading_setModulusBase,
    reading_le (le_refl _) (by omega) above below, reading_lt above below (by omega) (by omega)]
  simp [above]

/-- The timer is stopped unless it runs for a number above VR(R), and started if a PDU is missing. -/
theorem updateReorderingTimer_spec (buffered : side.Buffered vrR vrMs vrH placed)
    (isVrMr : side.vrMr = reading vrR (vrR + windowSize)) (vrR_missing : placed vrR = none)
    (vrMs_missing : placed vrMs = none) (assembled : Assembled side.reassembly (assemblyAt vrR) vrR)
    (timer : side.reorderingTimer = true ->
      ∃ vrX, side.vrX = reading vrR vrX ∧ vrR < vrX + windowSize ∧ vrX ≤ vrH) :
    ∃ final, side.updateReorderingTimer = .ok final ∧ final.Receiving vrR vrMs vrH placed assemblyAt := by
  have window := buffered.vrH_window
  have size : windowSize = 512 := rfl
  have order := buffered.vrR_vrMs
  have further := buffered.vrMs_vrH
  have stable : ∀ next : ReceivingSide,
      next = { side with reorderingTimer := next.reorderingTimer, vrX := next.vrX } ->
      (next.reorderingTimer = true -> ∃ vrX, next.vrX = reading vrR vrX ∧ vrR < vrX ∧ vrX ≤ vrH) ->
      next.Receiving vrR vrMs vrH placed assemblyAt := by
    intro next same runs
    refine ⟨⟨?_, ?_, ?_, order, further, window, ?_, buffered.below_vrR, buffered.below_vrH⟩, ?_, vrR_missing,
      vrMs_missing, runs, ?_⟩ <;> rw [same]
    · exact buffered.isVrR
    · exact buffered.isVrMs
    · exact buffered.isVrH
    · exact buffered.held
    · exact isVrMr
    · exact assembled
  -- What the timer runs for, once it has been stopped where it must be.
  have stops : ∀ runs : side.reorderingTimer = true,
      ¬(side.vrX.eq side.vrR = true ∨ ¬side.isInsideReceivingWindow side.vrX = true ∧ ¬side.vrX.eq side.vrMr = true) ->
      ∃ vrX, side.vrX = reading vrR vrX ∧ vrR < vrX ∧ vrX ≤ vrH := by
    intro runs goesOn
    obtain ⟨vrX, isVrX, near, atMost⟩ := timer runs
    refine ⟨vrX, isVrX, ?_, atMost⟩
    by_contra notAbove
    apply goesOn
    have isValue : side.vrX.value = Fin.ofNat 1024 vrX := by rw [isVrX, reading_value]
    by_cases same : vrX = vrR
    · refine .inl (decide_eq_true ?_)
      rw [isVrX, buffered.isVrR, same]
    · have wrapped : Fin.ofNat 1024 vrX = Fin.ofNat 1024 (vrX + 1024) := (ofNat_add_1024 vrX).symm
      have outside :=
        isInsideReceivingWindow_reading buffered.isVrR isVrMr (isValue.trans wrapped)
          (by omega) (by omega)
      refine .inr ⟨?_, ?_⟩
      · rw [outside]
        simp only [decide_eq_true_eq]
        omega
      · rw [SequenceNumber10.eq, isValue, wrapped, isVrMr, reading_value]
        simp only [decide_eq_true_eq]
        intro equal
        have := (ofNat_inj (by omega) (by omega)).mp equal
        omega
  have starts : checked Failure.modulusBase gt side.vrH side.vrR = .ok (decide (vrR < vrH)) := by
    rw [buffered.isVrH, buffered.isVrR, checked_reading, reading_gt (by omega) (by omega) (le_refl _) (by omega)]
  unfold updateReorderingTimer
  dsimp only
  by_cases stopped : side.reorderingTimer = true ∧
      (side.vrX.eq side.vrR = true ∨ ¬side.isInsideReceivingWindow side.vrX = true ∧ ¬side.vrX.eq side.vrMr = true)
  · rw [if_pos stopped, if_neg Bool.false_ne_true]
    rw [starts]
    refine ⟨_, rfl, ?_⟩
    dsimp only
    split
    · rename_i higher
      exact stable _ rfl fun _ => ⟨vrH, buffered.isVrH, of_decide_eq_true higher, le_refl _⟩
    · exact stable _ rfl (by simp)
  · rw [if_neg stopped]
    by_cases runs : side.reorderingTimer = true
    · rw [if_pos runs]
      exact ⟨side, rfl, stable _ rfl fun _ => stops runs fun goesOn => stopped ⟨runs, goesOn⟩⟩
    · rw [if_neg runs, starts]
      refine ⟨_, rfl, ?_⟩
      dsimp only
      split
      · rename_i higher
        exact stable _ rfl fun _ => ⟨vrH, buffered.isVrH, of_decide_eq_true higher, le_refl _⟩
      · exact stable _ rfl fun isRunning => absurd isRunning runs

section

variable (receiving : side.Receiving vrR vrMs vrH placed assemblyAt)
include receiving

theorem Receiving.congr_status
    (requested prohibited : Bool) (bufferSize : UInt32) :
    ({ side with
      statusPduRequested := requested
      statusPduBufferSize := bufferSize
      statusProhibitTimer := prohibited } : ReceivingSide).Receiving vrR vrMs vrH placed assemblyAt := by
  obtain ⟨buffered, isVrMr, rMissing, msMissing, timer, assembled⟩ := receiving
  exact ⟨⟨buffered.isVrR, buffered.isVrMs, buffered.isVrH, buffered.vrR_vrMs, buffered.vrMs_vrH, buffered.vrH_window,
    buffered.held, buffered.below_vrR, buffered.below_vrH⟩, isVrMr, rMissing, msMissing, timer, assembled⟩

theorem Receiving.requestStatusPdu (pollingBit : UInt8) :
    (side.requestStatusPdu pollingBit).Receiving vrR vrMs vrH placed assemblyAt := by
  unfold ReceivingSide.requestStatusPdu
  split
  · exact receiving.congr_status _ _ _
  · exact receiving

theorem Receiving.setWindowBase : side.setWindowBase = side := by
  rw [ReceivingSide.setWindowBase, receiving.buffered.isVrR, receiving.isVrMr, reading_getValue,
    reading_setModulusBase, reading_setModulusBase, ← receiving.buffered.isVrR, ← receiving.isVrMr]

end

theorem reading_of_value {sn : SequenceNumber10} (isValue : sn.value = Fin.ofNat 1024 n) (base : Nat) :
    sn.setModulusBase (base % 1024) = reading base n := by
  rw [SequenceNumber10.setModulusBase, isValue]
  rfl

theorem receiveData_outside (receiving : side.Receiving vrR vrMs vrH placed assemblyAt)
    (number : pdu.header.sequenceNumber.value = Fin.ofNat 1024 n) (above : vrR + windowSize ≤ n)
    (below : n < vrR + 1024) :
    ∃ final, side.receiveData pdu = .ok final ∧ final.Receiving vrR vrMs vrH placed assemblyAt := by
  have requested := receiving.requestStatusPdu pdu.header.pollingBit
  refine ⟨_, ?_, requested⟩
  have isOutside : (side.requestStatusPdu pdu.header.pollingBit).isInsideReceivingWindow (reading vrR n) = false := by
    rw [isInsideReceivingWindow_reading requested.buffered.isVrR requested.isVrMr reading_value (by omega) (by omega)]
    exact decide_eq_false (by omega)
  unfold receiveData
  dsimp only
  rw [requested.setWindowBase, receiving.buffered.isVrR, reading_getValue, reading_of_value number, isOutside]
  rfl

theorem deliverInSequence_spec (buffered : side.Buffered vrR vrMs vrH placed)
    (isVrMr : side.vrMr = reading vrR (vrR + windowSize)) (missing : placed vrMs = none)
    (timer : side.reorderingTimer = true -> ∃ vrX, side.vrX = reading vrR vrX ∧ vrR < vrX ∧ vrX ≤ vrH)
    (assembled : Assembled side.reassembly (assemblyAt vrR) vrR)
    (inStream : ∀ k q, placed k = some q -> InStream assemblyAt k q) (above : vrR ≤ n) (below : n < vrR + 1024)
    (isPlaced : placed n ≠ none) (others : n ≠ vrR -> placed vrR = none) :
    ∃ final reached, side.deliverInSequence (reading vrR n) = .ok final ∧ vrR ≤ reached ∧
      final.Receiving reached vrMs vrH placed assemblyAt := by
  have size : windowSize = 512 := rfl
  have window := buffered.vrH_window
  have orderH := buffered.vrMs_vrH
  have isComplete : side.complete (reading vrR n) = true := by
    rw [buffered.complete_reading above below]
    exact isSome_iff_ne_none.mpr isPlaced
  unfold deliverInSequence
  rw [isComplete, buffered.isVrR, reading_eq above below (le_refl _) (by omega), reading_getValue]
  by_cases isLowest : n = vrR
  · rw [if_pos ⟨decide_eq_true isLowest, rfl⟩]
    obtain ⟨last, reached, isLast, lastBuffered, lastAssembled, atLeast, isMissing, sameTimer, base⟩ :=
      @advanceVrR_spec side vrR vrMs vrH placed assemblyAt buffered assembled inStream missing vrR 1024
        (le_refl _) (by omega) (by omega)
    rw [isLast]
    suffices updated : ∃ final, ({ last with vrMr := last.vrR.add windowSize } : ReceivingSide).updateReorderingTimer =
        .ok final ∧ final.Receiving reached vrMs vrH placed assemblyAt by
      obtain ⟨final, isFinal, kept⟩ := updated
      exact ⟨final, reached, isFinal, atLeast, kept⟩
    refine updateReorderingTimer_spec ?_ ?_ isMissing missing ?_ fun runs => ?_
    · exact ⟨lastBuffered.isVrR, lastBuffered.isVrMs, lastBuffered.isVrH, lastBuffered.vrR_vrMs, lastBuffered.vrMs_vrH,
        lastBuffered.vrH_window, lastBuffered.held, lastBuffered.below_vrR, lastBuffered.below_vrH⟩
    · rw [lastBuffered.isVrR, reading_add]
    · exact lastAssembled
    · obtain ⟨vrX, isVrX, isAbove, isBelow⟩ := timer (sameTimer ▸ runs)
      have reachedOrder := lastBuffered.vrR_vrMs
      exact ⟨vrX, base vrX isVrX, by omega, isBelow⟩
  · rw [if_neg (by simp [isLowest])]
    obtain ⟨final, isFinal, kept⟩ := updateReorderingTimer_spec buffered isVrMr (others isLowest) missing assembled
      fun runs => by
        obtain ⟨vrX, isVrX, isAbove, isBelow⟩ := timer runs
        exact ⟨vrX, isVrX, by omega, isBelow⟩
    exact ⟨final, vrR, isFinal, le_refl _, kept⟩

theorem receiveData_inside (receiving : side.Receiving vrR vrMs vrH placed assemblyAt)
    (inStream : ∀ k q, update placed n (some ((placed n).getD pdu)) k = some q -> InStream assemblyAt k q)
    (number : pdu.header.sequenceNumber.value = Fin.ofNat 1024 n) (above : vrR ≤ n) (below : n < vrR + windowSize) :
    ∃ final reached further, side.receiveData pdu = .ok final ∧ vrR ≤ reached ∧
      final.Receiving reached further (max vrH (n + 1)) (update placed n (some ((placed n).getD pdu)))
        assemblyAt := by
  have size : windowSize = 512 := rfl
  have requested := receiving.requestStatusPdu pdu.header.pollingBit
  have window := requested.buffered.vrH_window
  have isInside : (side.requestStatusPdu pdu.header.pollingBit).isInsideReceivingWindow (reading vrR n) = true := by
    rw [isInsideReceivingWindow_reading requested.buffered.isVrR requested.isVrMr reading_value above (by omega)]
    exact decide_eq_true below
  obtain ⟨next, isNext, sameNext, placing⟩ := requested.buffered.place_spec above below pdu
  obtain ⟨placedBuffered, sameRest⟩ := placing _ rfl
  have compared : checked Failure.modulusBase ge (reading vrR n) next.vrH = .ok ((reading vrR n).ge next.vrH) := by
    rw [sameNext]
    rw [requested.buffered.isVrH, checked_reading]
  unfold receiveData
  dsimp only
  rw [requested.setWindowBase, receiving.buffered.isVrR, reading_getValue, reading_of_value number,
    if_pos isInside, isNext]
  simp only [Except.bind, compared]
  generalize (if (reading vrR n).ge next.vrH then { next with vrH := (reading vrR n).add 1 } else next) = after
    at placedBuffered sameRest ⊢
  have afterOrder := placedBuffered.vrR_vrMs
  obtain ⟨final, isFinal, advanced, -, missing⟩ := @Buffered.advanceVrMs_spec after vrR vrMs (max vrH (n + 1)) _
    placedBuffered vrMs 1024 (le_refl _) (by omega) (by omega)
  have isVrMs : after.vrMs.getValue = vrMs % 1024 := by rw [placedBuffered.isVrMs, reading_getValue]
  rw [isVrMs, isFinal]
  obtain ⟨last, reached, isLast, atLeast, stable⟩ :=
    @deliverInSequence_spec _ vrR final (max vrH (n + 1)) n _ assemblyAt
    advanced (by rw [sameRest]; exact requested.isVrMr) missing (by
      rw [sameRest]
      intro runs
      obtain ⟨vrX, isVrX, isAbove, isBelow⟩ := requested.timer runs
      exact ⟨vrX, isVrX, isAbove, by omega⟩) (by rw [sameRest]; exact requested.assembled) inStream above (by omega)
    (by simp) (fun other => by
      rw [update_of_ne (Ne.symm other)]
      exact receiving.vrR_missing)
  exact ⟨last, reached, final, isLast, atLeast, stable⟩

/-- The timer leads VR(MS) to the first PDU from VR(X) on that has not been received. -/
theorem expireReorderingTimer_spec (receiving : side.Receiving vrR vrMs vrH placed assemblyAt)
    (runs : side.reorderingTimer = true) :
    ∃ final further, side.expireReorderingTimer = .ok final ∧ final.Receiving vrR further vrH placed assemblyAt := by
  have size : windowSize = 512 := rfl
  obtain ⟨buffered, isVrMr, rMissing, msMissing, timer, assembled⟩ := receiving
  obtain ⟨vrX, isVrX, isAbove, atMost⟩ := timer runs
  have window := buffered.vrH_window
  have started :
    ({ side with reorderingTimer := false, vrMs := side.vrX } :
    ReceivingSide).Buffered vrR vrX vrH placed :=
    ⟨buffered.isVrR, isVrX, buffered.isVrH, by omega, atMost, window, buffered.held, buffered.below_vrR,
      buffered.below_vrH⟩
  obtain ⟨final, isFinal, advanced, more, missing⟩ := started.advanceVrMs_spec (le_refl vrX) (by omega)
    (by omega : vrH - vrX < 1024)
  have isVrMs : side.vrX.getValue = vrX % 1024 := by rw [isVrX, reading_getValue]
  have order := advanced.vrR_vrMs
  have orderH := advanced.vrMs_vrH
  unfold expireReorderingTimer
  dsimp only
  rw [isVrMs, isFinal]
  have higher : checked Failure.modulusBase gt ({ side with reorderingTimer := false, vrMs := reading vrR final } :
      ReceivingSide).vrH (reading vrR final) = .ok (decide (final < vrH)) := by
    rw [advanced.isVrH, checked_reading, reading_gt (by omega) (by omega) order (by omega)]
  simp only [Except.bind, higher]
  refine ⟨_, final, rfl, ?_⟩
  dsimp only
  split
  · exact ⟨⟨advanced.isVrR, advanced.isVrMs, advanced.isVrH, order, orderH, window, advanced.held, advanced.below_vrR,
      advanced.below_vrH⟩, isVrMr, rMissing, missing, fun _ => ⟨vrH, advanced.isVrH, by omega, le_refl _⟩, assembled⟩
  · exact ⟨⟨advanced.isVrR, advanced.isVrMs, advanced.isVrH, order, orderH, window, advanced.held, advanced.below_vrR,
      advanced.below_vrH⟩, isVrMr, rMissing, missing, fun isRunning => absurd isRunning (by simp), assembled⟩

/-- The 10 bits of the numbers of a range that have not been received. -/
def missing (placed : Placed) (n count : Nat) : List Nat :=
  ((range' n count).filter fun k => (placed k).isNone).map (· % 1024)

theorem missing_succ (placed : Placed) (n count : Nat) : missing placed n (count + 1) =
    if (placed n).isNone then n % 1024 :: missing placed (n + 1) count else missing placed (n + 1) count := by
  unfold missing
  rw [range'_succ]
  split <;> rename_i isNone <;> simp [isNone]

theorem mem_missing {count x : Nat} :
    x ∈ missing placed n count ↔ ∃ k, n ≤ k ∧ k < n + count ∧ placed k = none ∧ x = k % 1024 := by
  unfold missing
  rw [List.mem_map]
  constructor
  · rintro ⟨k, mem, rfl⟩
    obtain ⟨inRange, isNone⟩ := mem_filter.mp mem
    obtain ⟨above, below⟩ := mem_range'_1.mp inRange
    exact ⟨k, above, below, isNone_iff_eq_none.mp isNone, rfl⟩
  · rintro ⟨k, above, below, isNone, rfl⟩
    refine ⟨k, mem_filter.mpr ⟨mem_range'_1.mpr ⟨above, below⟩, ?_⟩, rfl⟩
    exact isNone_iff_eq_none.mpr isNone

/-- The loop pushes the missing numbers up to the one it ends at: VR(MS), or the first one without
room. -/
theorem pushNacks_spec (buffered : side.Buffered vrR vrMs vrH placed) {bytes : UInt16} {rounds : Nat}
    {header : NrRlcAmHeader} (above : vrR ≤ n) (atMost : n ≤ vrMs) (enough : vrMs - n < rounds) :
    ∃ count, side.pushNacks bytes rounds (reading vrR n) header =
        ((missing placed n count).foldl pushNack header, reading vrR (n + count)) ∧
      n + count ≤ vrMs ∧
      (n + count = vrMs ∨ ((missing placed n count).foldl pushNack header).oneMoreNackWouldFitIn bytes = false) ∧
      ∀ less < count, ((missing placed n less).foldl pushNack header).oneMoreNackWouldFitIn bytes = true := by
  have size : windowSize = 512 := rfl
  have window := buffered.vrH_window
  have orderH := buffered.vrMs_vrH
  induction rounds generalizing n header with
  | zero => omega
  | succ rounds ih =>
    unfold pushNacks
    rw [buffered.isVrMs, reading_lt above (by omega) (by omega) (by omega)]
    by_cases goes : n < vrMs ∧ header.oneMoreNackWouldFitIn bytes = true
    · rw [if_pos (by simpa using goes), buffered.complete_reading above (by omega), reading_increment, reading_getValue]
      obtain ⟨count, isCount, bound, stops, fits⟩ := @ih (n + 1)
        (if (placed n).isSome then header else header.pushNack (n % 1024)) (by omega) (by omega) (by omega)
      have folded : ∀ less, (missing placed n (less + 1)).foldl pushNack header =
          (missing placed (n + 1) less).foldl pushNack
            (if (placed n).isSome then header else header.pushNack (n % 1024)) := by
        intro less
        rw [missing_succ]
        cases placed n <;> rfl
      refine ⟨count + 1, ?_, by omega, ?_, fun less isLess => ?_⟩
      · rw [isCount, folded, show n + (count + 1) = n + 1 + count by omega]
      · rw [folded, show n + (count + 1) = n + 1 + count by omega]
        exact stops
      · cases less with
        | zero => exact goes.2
        | succ less =>
          rw [folded]
          exact fits less (by omega)
    · rw [if_neg (by simpa using goes)]
      refine ⟨0, rfl, atMost, ?_, fun less isLess => absurd isLess (not_lt_zero _)⟩
      by_cases reached : n = vrMs
      · exact .inl reached
      · refine .inr (Bool.not_eq_true _ ▸ fun fits => goes ⟨by omega, fits⟩)

theorem nextNotReceived_spec (buffered : side.Buffered vrR vrMs vrH placed) (isMissing : placed vrMs = none)
    {rounds : Nat} (above : vrR ≤ n) (atMost : n ≤ vrMs) (enough : vrMs - n < rounds) :
    ∃ ack, side.nextNotReceived rounds (reading vrR n) = reading vrR ack ∧ n ≤ ack ∧ ack ≤ vrMs ∧
      placed ack = none ∧ ∀ k, n ≤ k -> k < ack -> placed k ≠ none := by
  have size : windowSize = 512 := rfl
  have window := buffered.vrH_window
  have orderH := buffered.vrMs_vrH
  induction rounds generalizing n with
  | zero => omega
  | succ rounds ih =>
    unfold nextNotReceived
    rw [buffered.isVrMs, reading_lt above (by omega) (by omega) (by omega),
      buffered.complete_reading above (by omega), reading_increment]
    by_cases goes : n < vrMs ∧ (placed n).isSome = true
    · rw [if_pos (by simpa using goes)]
      obtain ⟨ack, isAck, more, bound, none, between⟩ := ih (n := n + 1) (by omega) (by omega) (by omega)
      refine ⟨ack, isAck, by omega, bound, none, fun k isAbove isBelow => ?_⟩
      by_cases first : k = n
      · subst first
        exact isSome_iff_ne_none.mp goes.2
      · exact between k (by omega) isBelow
    · rw [if_neg (by simpa using goes)]
      refine ⟨n, rfl, le_refl _, atMost, ?_, fun k isAbove isBelow => by omega⟩
      by_cases reached : n = vrMs
      · exact reached ▸ isMissing
      · by_contra isPlaced
        exact goes ⟨by omega, isSome_iff_ne_none.mpr isPlaced⟩

/-- What the STATUS PDU reports: every number below ACK_SN has been received or is in the list. -/
theorem buildStatusPdu_spec (receiving : side.Receiving vrR vrMs vrH placed assemblyAt) (bytes : UInt32) :
    ∃ count ack, side.buildStatusPdu bytes = .ok (buildStatus (reading vrR ack) (missing placed vrR count)) ∧
      vrR + count ≤ ack ∧ ack ≤ vrMs ∧ placed ack = none ∧ ∀ k, vrR + count ≤ k -> k < ack -> placed k ≠ none := by
  have size : windowSize = 512 := rfl
  have window := receiving.buffered.vrH_window
  have order := receiving.buffered.vrR_vrMs
  have orderH := receiving.buffered.vrMs_vrH
  obtain ⟨count, isCount, bound, -, -⟩ := @pushNacks_spec side vrR vrMs vrH vrR placed receiving.buffered
    (UInt16.ofNat bytes.toNat) 1024 (({} : NrRlcAmHeader).setControlPdu statusPdu) (le_refl _) order
    (by omega)
  obtain ⟨ack, isAck, more, atMost, isMissing, between⟩ := nextNotReceived_spec receiving.buffered
    receiving.vrMs_missing (by omega : vrR ≤ vrR + count) bound (by omega : vrMs - (vrR + count) < 1024)
  refine ⟨count, ack, ?_, more, atMost, isMissing, between⟩
  have ordered : (reading vrR ack).le side.vrMs = true := by
    rw [receiving.buffered.isVrMs, reading_le (by omega) (by omega) order (by omega)]
    exact decide_eq_true atMost
  have compared : checked Failure.modulusBase lt side.vrR side.vrMs = .ok (side.vrR.lt side.vrMs) := by
    rw [receiving.buffered.isVrR, receiving.buffered.isVrMs, checked_reading]
  unfold buildStatusPdu
  rw [compared, Except.bind, receiving.buffered.isVrR, isCount]
  dsimp only
  rw [isAck, if_pos ordered]
  rfl

end Ns3.Nr.Am.ReceivingSide
