import Ns3.Wifi.RecipientBlockAckAgreement
import Mathlib.Data.Nat.Bitwise
import Mathlib.Tactic.IntervalCases

/-!
# The scoreboard of the recipient

How an MPDU and a block ack request update the scoreboard, number by number, and that the bitmap of a
block ack is the scoreboard: `fillBlockAckBitmap_spec`.
-/

namespace Ns3.Wifi

open BlockAckWindow List Option Nat

theorem distance_inj {first second start : Nat} (isFirst : first < seqnoSpaceSize)
    (isSecond : second < seqnoSpaceSize) (isStart : start < seqnoSpaceSize) :
    distance first start = distance second start ↔ first = second := by
  rw [distance, distance, seqnoSpaceSize] at *
  omega

theorem distance_add {seqNumber start : Nat} (isNumber : seqNumber < seqnoSpaceSize)
    (isStart : start < seqnoSpaceSize) : (start + distance seqNumber start) % seqnoSpaceSize = seqNumber := by
  rw [distance, seqnoSpaceSize] at *
  omega

namespace RecipientBlockAckAgreement

variable {Body : Type} {agreement : RecipientBlockAckAgreement Body} {scoreboard : BlockAckWindow} {seq : Nat}

/-- Of the numbers that the scoreboard covers afterwards, those are marked that are heard now or were
covered and marked before. -/
structure Hears (heard : Nat -> Prop) (scoreboard next : BlockAckWindow) : Prop where
  wellFormed : next.WellFormed
  size : next.getWinSize = scoreboard.getWinSize
  marked : ∀ seqNumber, seqNumber < seqnoSpaceSize -> next.Covers seqNumber -> (next.marked seqNumber = true ↔
      heard seqNumber ∨ scoreboard.Covers seqNumber ∧ scoreboard.marked seqNumber = true)

theorem hears_advance {count : Nat} (wellFormed : scoreboard.WellFormed)
    (fits : count + scoreboard.getWinSize ≤ seqnoSpaceSize) :
    Hears (fun _ => False) scoreboard (scoreboard.advance count) := by
  obtain ⟨kept, size, -, -⟩ := @advance_spec scoreboard count wellFormed
  refine ⟨kept, size, fun seqNumber isNumber covers => ?_⟩
  rw [marked_advance wellFormed fits isNumber covers, false_or]

theorem hears_setAt (wellFormed : scoreboard.WellFormed) (isNumber : seq < seqnoSpaceSize)
    (covers : scoreboard.Covers seq) :
    ∃ next, scoreboard.setAt (distance seq scoreboard.winStart) = some next ∧ Hears (· = seq) scoreboard next ∧
      next.winStart = scoreboard.winStart := by
  obtain ⟨next, isNext, kept, size, start, bits⟩ := setAt_spec wellFormed covers
  refine ⟨next, isNext, ⟨kept, size, fun other isOther coversOther => ?_⟩, start⟩
  rw [Covers, size, start] at coversOther
  rw [marked, start, bits _ coversOther, Bool.or_eq_true, decide_eq_true_eq,
    distance_inj isOther isNumber wellFormed.start_lt]
  exact or_congr Iff.rfl ⟨fun isMarked => ⟨coversOther, isMarked⟩, And.right⟩

theorem Hears.mark {next last : BlockAckWindow} (moved : Hears (fun _ => False) scoreboard next)
    (heard : Hears (· = seq) next last) (same : last.winStart = next.winStart) : Hears (· = seq) scoreboard last := by
  refine ⟨heard.wellFormed, heard.size.trans moved.size, fun other isOther covers => ?_⟩
  have coversNext : next.Covers other := by
    rw [Covers, ← same, ← heard.size]
    exact covers
  rw [heard.marked other isOther covers, moved.marked other isOther coversNext, false_or]
  exact or_congr Iff.rfl (and_iff_right coversNext)

theorem scoreMpdu_spec (wellFormed : scoreboard.WellFormed) (small : scoreboard.getWinSize ≤ 1024)
    (isNumber : seq < seqnoSpaceSize) :
    ∃ next, scoreMpdu scoreboard seq = some next ∧ Hears (· = seq) scoreboard next := by
  have isStart := wellFormed.start_lt
  rw [scoreMpdu, getDistance, if_pos ⟨isNumber, isStart⟩, bind_some]
  by_cases inside : distance seq scoreboard.winStart < scoreboard.getWinSize
  · obtain ⟨next, isNext, heard, -⟩ := hears_setAt wellFormed isNumber inside
    rw [if_pos inside]
    exact ⟨next, isNext, heard⟩
  rw [if_neg inside]
  by_cases new : distance seq scoreboard.winStart < seqnoSpaceHalfSize
  · have half : seqnoSpaceHalfSize = 2048 := rfl
    have fits : distance seq scoreboard.winStart - scoreboard.getWinSize + 1 + scoreboard.getWinSize ≤
        seqnoSpaceSize := by
      rw [seqnoSpaceSize]
      omega
    have moved := hears_advance wellFormed fits
    obtain ⟨kept, size, start, -⟩ := @advance_spec scoreboard
      (distance seq scoreboard.winStart - scoreboard.getWinSize + 1) wellFormed
    have pos : 0 < scoreboard.getWinSize := lt_of_le_of_lt (zero_le _) wellFormed.head_lt
    -- The window ends with the MPDU.
    have isLast : distance seq (scoreboard.advance
        (distance seq scoreboard.winStart - scoreboard.getWinSize + 1)).winStart = scoreboard.getWinSize - 1 := by
      rw [start]
      rw [distance, distance, seqnoSpaceSize] at *
      omega
    obtain ⟨last, isNext, heard, same⟩ := hears_setAt kept isNumber (by
      rw [Covers, isLast, size]
      exact sub_lt pos (by decide))
    rw [if_pos new]
    refine ⟨last, ?_, moved.mark heard same⟩
    rw [isLast] at isNext
    simp only [size]
    exact isNext
  · refine ⟨scoreboard, if_neg new, wellFormed, rfl, fun other isOther covers => ?_⟩
    have notThis : other ≠ seq := by
      rintro rfl
      exact inside covers
    exact ⟨fun isMarked => .inr ⟨covers, isMarked⟩, fun either => (either.resolve_left notThis).2⟩

theorem scoreBar_spec (wellFormed : scoreboard.WellFormed) (small : scoreboard.getWinSize ≤ 1024)
    (isNumber : seq < seqnoSpaceSize) :
    ∃ next, scoreBar scoreboard seq = some next ∧ Hears (fun _ => False) scoreboard next := by
  have isStart := wellFormed.start_lt
  have half : seqnoSpaceHalfSize = 2048 := rfl
  have reached := distance_add isNumber isStart
  rw [scoreBar, getDistance, if_pos ⟨isNumber, isStart⟩, bind_some]
  split
  next inside =>
    have fits : distance seq scoreboard.winStart + scoreboard.getWinSize ≤ seqnoSpaceSize := by
      rw [seqnoSpaceSize]
      omega
    obtain ⟨-, -, start, -⟩ := @advance_spec scoreboard (distance seq scoreboard.winStart) wellFormed
    exact ⟨_, if_pos (start.trans reached), hears_advance wellFormed fits⟩
  · split
    next outside new =>
      have fits : distance seq scoreboard.winStart + scoreboard.getWinSize ≤ seqnoSpaceSize := by
        rw [seqnoSpaceSize]
        omega
      -- A reset is an advance by at least the size.
      have asAdvance : scoreboard.advance (distance seq scoreboard.winStart) = scoreboard.reset seq := by
        rw [advance, if_pos (Nat.le_of_not_lt fun less => outside ⟨new.1, less⟩), reached]
      refine ⟨_, rfl, ?_⟩
      rw [← asAdvance]
      exact hears_advance wellFormed fits
    · refine ⟨scoreboard, rfl, wellFormed, rfl, fun other _ covers => ?_⟩
      rw [false_or]
      exact (and_iff_right covers).symm

end RecipientBlockAckAgreement

namespace CtrlBAckResponseHeader

variable {header : CtrlBAckResponseHeader} {seq other : Nat}

theorem mask_toNat {place : Nat} (isPlace : place < 8) : (1 <<< UInt8.ofNat place : UInt8).toNat = 2 ^ place := by
  interval_cases place <;> rfl

theorem mask_ne_zero {byte : UInt8} {place : Nat} (isPlace : place < 8) :
    byte &&& 1 <<< UInt8.ofNat place ≠ 0 ↔ byte.toNat.testBit place = true := by
  rw [ne_eq, ← UInt8.toNat_inj, UInt8.toNat_and, mask_toNat isPlace, and_two_pow]
  cases byte.toNat.testBit place <;> simp

theorem indexInBitmap_eq (isNumber : seq < seqnoSpaceSize) (isStart : header.startingSeq < seqnoSpaceSize) :
    header.indexInBitmap seq = distance seq header.startingSeq := by
  rw [indexInBitmap, distance, seqnoSpaceSize] at *
  split <;> omega

theorem bitOf_eq : header.bitOf seq =
    (header.bitmap[header.indexInBitmap seq / 8]?.getD 0).toNat.testBit (header.indexInBitmap seq % 8) := by
  rw [Bool.eq_iff_iff, bitOf, decide_eq_true_eq]
  exact mask_ne_zero (mod_lt _ (by decide))

theorem index_lt (isNumber : seq < seqnoSpaceSize) (isStart : header.startingSeq < seqnoSpaceSize)
    (inBitmap : header.isInBitmap seq = true) : header.indexInBitmap seq / 8 < header.bitmapLen := by
  have less : distance seq header.startingSeq < header.bitmapLen * 8 % 65536 := of_decide_eq_true inBitmap
  rw [indexInBitmap_eq isNumber isStart]
  have atMost := mod_le (header.bitmapLen * 8) 65536
  omega

theorem testBit_modify {bytes : List UInt8} {first second : Nat} (inside : first / 8 < bytes.length) :
    ((bytes.modify (second / 8) fun byte => byte ||| 1 <<< UInt8.ofNat (second % 8))[first / 8]?.getD 0).toNat.testBit
        (first % 8) =
      (decide (first = second) || (bytes[first / 8]?.getD 0).toNat.testBit (first % 8)) := by
  obtain ⟨byte, isByte⟩ : ∃ byte, bytes[first / 8]? = some byte := ⟨_, getElem?_eq_getElem inside⟩
  have isPlace : second % 8 < 8 := mod_lt _ (by decide)
  rw [List.getElem?_modify, isByte]
  by_cases sameByte : second / 8 = first / 8
  · have same : second % 8 = first % 8 ↔ first = second := by omega
    simp only [sameByte, if_true, Option.map_eq_map, map_some, getD_some, UInt8.toNat_or, mask_toNat isPlace,
      testBit_or, testBit_two_pow, same]
    exact Bool.or_comm _ _
  · have ne : first ≠ second := by
      rintro rfl
      exact sameByte rfl
    simp only [if_neg sameByte, Option.map_eq_map, map_some, decide_eq_false ne, Bool.false_or]

theorem setReceivedPacket_spec (isSeq : seq < seqnoSpaceSize) (isStart : header.startingSeq < seqnoSpaceSize)
    (length : header.bitmap.length = header.bitmapLen) (isOther : other < seqnoSpaceSize)
    (inBitmap : header.isInBitmap other = true) :
    (header.setReceivedPacket seq).bitOf other = (decide (other = seq) || header.bitOf other) := by
  have otherByte := index_lt isOther isStart inBitmap
  have otherIndex := indexInBitmap_eq isOther isStart
  have seqIndex := indexInBitmap_eq isSeq isStart
  have sameNumber := distance_inj isOther isSeq isStart
  rw [setReceivedPacket]
  split
  next inside =>
    have sameIndex : header.indexInBitmap other = header.indexInBitmap seq ↔ other = seq := by
      rw [otherIndex, seqIndex, sameNumber]
    rw [bitOf_eq, bitOf_eq, ← decide_eq_decide.mpr sameIndex]
    exact testBit_modify (length ▸ otherByte)
  next outside =>
    have ne : other ≠ seq := by
      rintro rfl
      exact outside inBitmap
    rw [decide_eq_false ne, Bool.false_or]

theorem bitOf_resetBitmap : header.resetBitmap.bitOf seq = false := by
  rw [bitOf_eq, resetBitmap]
  simp only [getElem?_replicate]
  split <;> exact zero_testBit _

end CtrlBAckResponseHeader

namespace RecipientBlockAckAgreement

open CtrlBAckResponseHeader

variable {Body : Type} {agreement : RecipientBlockAckAgreement Body} {scoreboard : BlockAckWindow}
  {header filled : CtrlBAckResponseHeader}

/-- The bits of the bitmap are those of the scoreboard in front of a distance. -/
structure FilledTo (scoreboard : BlockAckWindow) (header : CtrlBAckResponseHeader) (count : Nat)
    (filled : CtrlBAckResponseHeader) : Prop where
  startingSeq : filled.startingSeq = scoreboard.winStart
  bitmapLen : filled.bitmapLen = header.bitmapLen
  length : filled.bitmap.length = filled.bitmapLen
  bits : ∀ seq, seq < seqnoSpaceSize -> filled.isInBitmap seq = true -> (filled.bitOf seq = true ↔
      distance seq scoreboard.winStart < count ∧ scoreboard.marked seq = true)

theorem filledTo_succ {count : Nat} (wellFormed : scoreboard.WellFormed) (near : count < scoreboard.getWinSize)
    (small : scoreboard.getWinSize ≤ seqnoSpaceSize) (filledTo : FilledTo scoreboard header count filled) :
    ∃ next, fillFrom scoreboard filled count = some next ∧ FilledTo scoreboard header (count + 1) next := by
  have isStart : filled.startingSeq < seqnoSpaceSize := by
    rw [filledTo.startingSeq]
    exact wellFormed.start_lt
  have isSeq : (scoreboard.winStart + count) % seqnoSpaceSize < seqnoSpaceSize := Nat.mod_lt _ (by decide)
  have atCount : distance ((scoreboard.winStart + count) % seqnoSpaceSize) scoreboard.winStart = count := by
    have start := wellFormed.start_lt
    rw [distance, seqnoSpaceSize] at *
    omega
  have isThis : ∀ seq, seq < seqnoSpaceSize ->
      (seq = (scoreboard.winStart + count) % seqnoSpaceSize ↔ distance seq scoreboard.winStart = count) := by
    intro seq isNumber
    rw [← distance_inj isNumber isSeq wellFormed.start_lt, atCount]
  rw [fillFrom, getAt_eq wellFormed near, map_some]
  refine ⟨_, rfl, ?_⟩
  split
  next isSet =>
    have same : (filled.setReceivedPacket ((scoreboard.winStart + count) % seqnoSpaceSize)).startingSeq =
          filled.startingSeq ∧
        (filled.setReceivedPacket ((scoreboard.winStart + count) % seqnoSpaceSize)).bitmapLen = filled.bitmapLen ∧
        (filled.setReceivedPacket ((scoreboard.winStart + count) % seqnoSpaceSize)).bitmap.length =
          filled.bitmap.length := by
      rw [setReceivedPacket]
      split
      · exact ⟨rfl, rfl, List.length_modify ..⟩
      · exact ⟨rfl, rfl, rfl⟩
    refine ⟨same.1.trans filledTo.startingSeq, same.2.1.trans filledTo.bitmapLen, ?_, fun seq isNumber inside => ?_⟩
    · rw [same.2.1, same.2.2, filledTo.length]
    · have inBitmap : filled.isInBitmap seq = true := by
        rw [isInBitmap, same.1, same.2.1] at inside
        exact inside
      rw [setReceivedPacket_spec isSeq isStart filledTo.length isNumber inBitmap, Bool.or_eq_true, decide_eq_true_eq,
        filledTo.bits seq isNumber inBitmap, isThis seq isNumber, Nat.lt_succ_iff_lt_or_eq]
      constructor
      · rintro (here | ⟨before, isMarked⟩)
        · refine ⟨.inr here, ?_⟩
          rw [marked, here]
          exact isSet
        · exact ⟨.inl before, isMarked⟩
      · rintro ⟨before | here, isMarked⟩
        · exact .inr ⟨before, isMarked⟩
        · exact .inl here
  next notSet =>
    refine ⟨filledTo.startingSeq, filledTo.bitmapLen, filledTo.length, fun seq isNumber inside => ?_⟩
    rw [filledTo.bits seq isNumber inside, Nat.lt_succ_iff_lt_or_eq]
    refine and_congr_left fun isMarked => ?_
    refine (or_iff_left fun here => notSet ?_).symm
    rw [marked, here] at isMarked
    exact isMarked

theorem filledTo_range (wellFormed : scoreboard.WellFormed) (small : scoreboard.getWinSize ≤ seqnoSpaceSize)
    (count : Nat) (atMost : count ≤ scoreboard.getWinSize) :
    ∃ filled, (range count).foldlM (fillFrom scoreboard)
        (header.setStartingSequence scoreboard.winStart).resetBitmap = some filled ∧
      FilledTo scoreboard header count filled := by
  induction count with
  | zero =>
    refine ⟨_, rfl, rfl, rfl, length_replicate, fun seq _ _ => ?_⟩
    rw [bitOf_resetBitmap]
    exact iff_of_false Bool.false_ne_true fun both => absurd both.1 (not_lt_zero _)
  | succ count ih =>
    obtain ⟨before, isBefore, filledTo⟩ := ih (le_of_succ_le atMost)
    obtain ⟨next, isNext, further⟩ := filledTo_succ wellFormed atMost small filledTo
    refine ⟨next, ?_, further⟩
    rw [range_succ, foldlM_append, isBefore]
    simp only [bind_eq_bind, bind_some, foldlM_cons, isNext, foldlM_nil]
    rfl

theorem fillBlockAckBitmap_spec (wellFormed : agreement.scoreboard.WellFormed)
    (small : agreement.scoreboard.getWinSize ≤ seqnoSpaceSize)
    (supported : header.variant ≠ .basic ∧ header.variant ≠ .multiTid) :
    ∃ filled, agreement.fillBlockAckBitmap header = some filled ∧
      ∀ seq, seq < seqnoSpaceSize -> filled.isInBitmap seq = true ->
        (filled.bitOf seq = true ↔ agreement.scoreboard.Covers seq ∧ agreement.scoreboard.marked seq = true) := by
  obtain ⟨filled, isFilled, filledTo⟩ := @filledTo_range _ header wellFormed small _ (le_refl _)
  refine ⟨filled, ?_, filledTo.bits⟩
  rw [fillBlockAckBitmap, if_neg (not_or.mpr supported)]
  exact isFilled

end RecipientBlockAckAgreement

end Ns3.Wifi
