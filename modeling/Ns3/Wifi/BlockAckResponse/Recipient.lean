import Ns3.Wifi.BlockAckResponse.Codec
import Ns3.Wifi.RecipientRuns

/-!
# The block ack of a recipient

What the recipient of a run fills into a block ack is what the originator reads from its bytes: the
MPDUs that were heard since the scoreboard covers them.
-/

namespace Ns3.Wifi.BlockAckResponse

open Semantics RecipientBlockAckAgreement Reception List Option

namespace CtrlBAckResponseHeader

def setStartingSequence (header : CtrlBAckResponseHeader) (seq index : Nat) : CtrlBAckResponseHeader :=
  { header with baInfo := header.baInfo.modify index fun info => { info with startingSeq := UInt16.ofNat seq } }

def resetBitmap (header : CtrlBAckResponseHeader) (index : Nat) : CtrlBAckResponseHeader :=
  header.setBitmap index (replicate (header.baType.bitmapLen.getD index 0) 0)

/-- The body of the loop of `FillBlockAckBitmap`. -/
def fillFrom (scoreboard : BlockAckWindow) (index : Nat) (header : CtrlBAckResponseHeader) (i : Nat) :
    Option CtrlBAckResponseHeader :=
  (scoreboard.getAt i).bind fun isSet =>
    if isSet then header.setReceivedPacket ((scoreboard.winStart + i) % seqnoSpaceSize) index else some header

/-- `RecipientBlockAckAgreement::FillBlockAckBitmap` of the subfield at an index. -/
def fillBlockAckBitmap (scoreboard : BlockAckWindow) (blockAckHeader : CtrlBAckResponseHeader) (index : Nat) :
    Option CtrlBAckResponseHeader :=
  if blockAckHeader.baType.variant = .basic ∨ blockAckHeader.baType.variant = .multiTid then none
  else (range scoreboard.getWinSize).foldlM (fillFrom scoreboard index)
    ((blockAckHeader.setStartingSequence scoreboard.winStart index).resetBitmap index)

variable {header : CtrlBAckResponseHeader} {index bitmapLen seq : Nat} {info : BaInfoInstance}
  {scoreboard : BlockAckWindow} {view filled : Wifi.CtrlBAckResponseHeader}

theorem WellFormed.setStartingSequence (wellFormed : header.WellFormed) (isSeq : seq < seqnoSpaceSize) :
    (header.setStartingSequence seq index).WellFormed := by
  have small : (UInt16.ofNat seq).toNat < seqnoSpaceSize := (Nat.mod_le _ _).trans_lt isSeq
  have sameType : (header.setStartingSequence seq index).baType = header.baType := rfl
  rw [WellFormed] at wellFormed ⊢
  rw [sameType]
  split
  next multi =>
    rw [if_pos multi] at wellFormed
    refine forall₂_modify wellFormed fun bitmapLen info _ _ subfield => ?_
    rw [SubfieldOk] at subfield ⊢
    split at subfield
    next special => exact (if_pos special).mpr subfield
    next associated =>
      refine (if_neg associated).mpr ?_
      split at subfield
      next context => exact (if_pos context).mpr ⟨subfield.supported, subfield.length, small⟩
      next without => exact (if_neg without).mpr subfield
  next notMulti =>
    rw [if_neg notMulti] at wellFormed
    obtain ⟨isTid, bitmapLen, info, isLen, isInfo, single⟩ := wellFormed
    cases index with
    | zero =>
      refine ⟨isTid, bitmapLen, { info with startingSeq := UInt16.ofNat seq }, isLen, ?_,
        ⟨single.supported, single.length, small⟩, single.notMulti, single.isBasic, single.isExtended⟩
      rw [CtrlBAckResponseHeader.setStartingSequence, isInfo]
      rfl
    | succ index =>
      refine ⟨isTid, bitmapLen, info, isLen, ?_, single⟩
      rw [CtrlBAckResponseHeader.setStartingSequence, isInfo]
      exact congrArg (info :: ·) (modify_nil _ _)

/-- A packet is recorded in what the subfield says. -/
theorem setReceivedPacket_eq (isView : header.viewAt index = some view)
    (supported : header.baType.variant ≠ .basic ∧ header.baType.variant ≠ .multiTid) :
    header.setReceivedPacket seq index = some (header.setBitmap index (view.setReceivedPacket seq).bitmap) := by
  rw [CtrlBAckResponseHeader.setReceivedPacket, isView, bind_some]
  cases isVariant : header.baType.variant with
  | basic => exact absurd isVariant supported.1
  | multiTid => exact absurd isVariant supported.2
  | _ => rfl

/-- The loop fills the subfield as it fills what the subfield says. -/
theorem foldlM_fillFrom (isInfo : header.baInfo[index]? = some info)
    (isLen : header.baType.bitmapLen[index]? = some bitmapLen)
    (supported : header.baType.variant ≠ .basic ∧ header.baType.variant ≠ .multiTid) {bitmap : List UInt8} :
    ∀ {is : List Nat}, is.foldlM (RecipientBlockAckAgreement.fillFrom scoreboard)
        { viewOf header.baType.variant bitmapLen info with bitmap } = some filled ->
      is.foldlM (fillFrom scoreboard index) (header.setBitmap index bitmap) =
        some (header.setBitmap index filled.bitmap) ∧
        filled = { viewOf header.baType.variant bitmapLen info with bitmap := filled.bitmap }
  | [], isFilled => by
    cases isFilled
    exact ⟨rfl, rfl⟩
  | i :: is, isFilled => by
    rw [foldlM_cons] at isFilled ⊢
    obtain ⟨next, isNext, further⟩ := bind_eq_some_iff.mp isFilled
    obtain ⟨isSet, isBit, rfl⟩ := map_eq_some_iff.mp isNext
    have isView : (header.setBitmap index bitmap).viewAt index =
        some { viewOf header.baType.variant bitmapLen info with bitmap } :=
      viewAt_eq (setBitmap_info isInfo) isLen
    rw [fillFrom, isBit, bind_some]
    cases isSet with
    | false => exact foldlM_fillFrom isInfo isLen supported further
    | true =>
      rw [if_pos rfl] at further ⊢
      rw [setReceivedPacket_view.1] at further
      rw [setReceivedPacket_eq isView supported, setBitmap_setBitmap]
      exact foldlM_fillFrom isInfo isLen supported further

/-- The subfield that is filled is one that can be read, and says what the scoreboard knows. -/
theorem fillBlockAckBitmap_tells (wellFormed : header.WellFormed) (isInfo : header.baInfo[index]? = some info)
    (isLen : header.baType.bitmapLen[index]? = some bitmapLen) (notBasic : header.baType.variant ≠ .basic)
    (notSpecial : header.baType.variant = .multiSta -> info.aid11 ≠ 2045) (board : scoreboard.WellFormed)
    (small : scoreboard.getWinSize ≤ seqnoSpaceSize) :
    ∃ filled, header.fillBlockAckBitmap scoreboard index = some filled ∧ filled.RoundTrip ∧ ∀ seq < seqnoSpaceSize,
      ∃ tells, filled.received.isPacketReceived seq index = some tells ∧
        (tells = true ↔ isAllAck header.baType.variant info = true ∨
          distance seq scoreboard.winStart < bitmapLen * 8 ∧ scoreboard.Covers seq ∧ scoreboard.marked seq = true) := by
  have started : (UInt16.ofNat scoreboard.winStart).toNat = scoreboard.winStart :=
    UInt16.toNat_ofNat_of_lt' (board.start_lt.trans (by decide))
  have isSeq : (UInt16.ofNat scoreboard.winStart).toNat < seqnoSpaceSize := started.trans_lt board.start_lt
  have begun := @WellFormed.setStartingSequence header index _ wellFormed board.start_lt
  have isBegun : (header.setStartingSequence scoreboard.winStart index).baInfo[index]? =
      some { info with startingSeq := UInt16.ofNat scoreboard.winStart } := by
    rw [setStartingSequence, getElem?_modify_eq, isInfo]
    rfl
  obtain ⟨notTid, readable⟩ := begun.readable isBegun isLen notSpecial isSeq
  obtain ⟨view, isView, filledTo⟩ := @filledTo_range scoreboard
    (viewOf header.baType.variant bitmapLen
      { info with startingSeq := UInt16.ofNat scoreboard.winStart }) board small _ le_rfl
  have sameView : ((viewOf header.baType.variant bitmapLen
        { info with startingSeq := UInt16.ofNat scoreboard.winStart }).setStartingSequence
          scoreboard.winStart).resetBitmap =
      { viewOf header.baType.variant bitmapLen { info with startingSeq := UInt16.ofNat scoreboard.winStart } with
        bitmap := replicate bitmapLen 0 } :=
    congrArg (fun startingSeq => { viewOf header.baType.variant bitmapLen info with
      startingSeq, bitmap := replicate bitmapLen 0 }) started.symm
  rw [sameView] at isView
  obtain ⟨isLoop, sameFilled⟩ := foldlM_fillFrom isBegun isLen ⟨notBasic, notTid⟩ isView
  have length : view.bitmap.length = bitmapLen := filledTo.length.trans filledTo.bitmapLen
  have isReset : (header.setStartingSequence scoreboard.winStart index).resetBitmap index =
      (header.setStartingSequence scoreboard.winStart index).setBitmap index (replicate bitmapLen 0) := by
    have isLength :
      (header.setStartingSequence scoreboard.winStart index).baType.bitmapLen.getD index 0 =
      bitmapLen := by
      rw [getD_eq_getElem?_getD]
      exact congrArg (Option.getD · 0) isLen
    rw [resetBitmap, isLength]
  have written := begun.setBitmap isLen length
  have isNow := @setBitmap_info _ _ index view.bitmap isBegun
  refine ⟨_, (if_neg (not_or.mpr ⟨notBasic, notTid⟩)).trans (isReset ▸ isLoop), written.roundTrip,
    fun seq isNumber => ?_⟩
  obtain ⟨-, readFilled⟩ := written.readable isNow isLen notSpecial isSeq
  refine ⟨_, (received_isPacketReceived isNow isLen readFilled notTid isNumber).trans
    (isPacketReceived_spec isNow isLen length isSeq notTid isNumber), ?_⟩
  have inBitmap : view.isInBitmap seq = true ↔ distance seq scoreboard.winStart < bitmapLen * 8 := by
    have isLength : view.bitmapLen = bitmapLen := filledTo.bitmapLen
    have bound : bitmapLen * 8 % 65536 = bitmapLen * 8 := Nat.mod_eq_of_lt (by have := readable.small; omega)
    rw [Wifi.CtrlBAckResponseHeader.isInBitmap, isLength, bound, filledTo.startingSeq, decide_eq_true_iff, distance]
  have isView : viewOf header.baType.variant bitmapLen
      { info with startingSeq := UInt16.ofNat scoreboard.winStart, bitmap := view.bitmap } = view := sameFilled.symm
  have sameVariant :
    ((header.setStartingSequence scoreboard.winStart index).setBitmap index view.bitmap).baType.variant =
      header.baType.variant := rfl
  rw [sameVariant, isView, Bool.or_eq_true, Bool.and_eq_true, Bool.and_eq_true, decide_eq_true_iff,
    and_iff_right notBasic,
    ← inBitmap]
  exact or_congr Iff.rfl (and_congr_right (filledTo.bits seq isNumber))

end CtrlBAckResponseHeader

namespace Reception

variable {Item : Type} {state : Reception Item} {header : CtrlBAckResponseHeader} {index bitmapLen : Nat}
  {info : BaInfoInstance}

/-- The originator reads from the bytes which MPDUs the recipient has heard since its scoreboard
covers them, as far as the bitmap reaches. -/
theorem blockAck_tells {trace : List (Reception Item × Call Item)} (run : (system Item).Run trace state)
    (within : ∀ entry ∈ trace, entry.1.Within entry.2) (wellFormed : header.WellFormed)
    (isInfo : header.baInfo[index]? = some info) (isLen : header.baType.bitmapLen[index]? = some bitmapLen)
    (notBasic : header.baType.variant ≠ .basic) (notSpecial : header.baType.variant = .multiSta -> info.aid11 ≠ 2045) :
    ∃ filled bytes read, header.fillBlockAckBitmap state.agreement.scoreboard index = some filled ∧
      filled.serialize = some bytes ∧ CtrlBAckResponseHeader.deserialize bytes = some (read, bytes.length) ∧
      ∀ seq < seqnoSpaceSize, ∃ tells, read.isPacketReceived seq index = some tells ∧
        (tells = true ↔ CtrlBAckResponseHeader.isAllAck header.baType.variant info = true ∨
          distance seq state.agreement.scoreboard.winStart < bitmapLen * 8 ∧ state.agreement.scoreboard.Covers seq ∧
            HeardSinceCovered state.log seq) := by
  obtain ⟨held, inv⟩ : ∃ held, Inv state held := by
    refine run.invariant_of_guard (fun state => ∃ held, Inv state held) Within (fun _ => inv_initial) ?_ within
    rintro state call next ⟨held, inv⟩ isWithin transition
    obtain ⟨after, further, isNext, -, kept⟩ := inv.step isWithin
    cases isNext.symm.trans transition
    exact ⟨further, kept⟩
  have small : state.agreement.scoreboard.getWinSize ≤ seqnoSpaceSize :=
    (inv.sameSize.trans_le inv.small).trans (by decide)
  obtain ⟨filled, isFilled, ⟨bytes, isWritten, -, isRead⟩, tells⟩ :=
    CtrlBAckResponseHeader.fillBlockAckBitmap_tells wellFormed isInfo isLen notBasic notSpecial inv.wellFormed small
  refine ⟨filled, bytes, filled.received, isFilled, isWritten, isRead, fun seq isSeq => ?_⟩
  obtain ⟨told, isTold, same⟩ := tells seq isSeq
  refine ⟨told, isTold, same.trans (or_congr Iff.rfl (and_congr_right fun _ => and_congr_right fun covers => ?_))⟩
  exact inv.marked seq isSeq covers

/-- A compressed block ack of 64 bits. -/
def compressed : CtrlBAckResponseHeader :=
  CtrlBAckResponseHeader.make.setType ⟨.compressed, [8]⟩

/-- MPDUs 4095 and 4096, of which the later one arrives first. -/
theorem blockAck_tells_around : ∃ state : Reception Unit, state.passed = [(4095, ()), (4096, ())] ∧
    ∃ filled bytes read, compressed.fillBlockAckBitmap state.agreement.scoreboard 0 = some filled ∧
      filled.serialize = some bytes ∧ CtrlBAckResponseHeader.deserialize bytes = some (read, bytes.length) ∧
      ∀ seq < seqnoSpaceSize, ∃ tells, read.isPacketReceived seq 0 = some tells ∧
        (tells = true ↔ CtrlBAckResponseHeader.isAllAck .compressed { bitmap := replicate 8 0 } = true ∨
          distance seq state.agreement.scoreboard.winStart < 8 * 8 ∧ state.agreement.scoreboard.Covers seq ∧
            HeardSinceCovered state.log seq) := by
  have initial : Initial (⟨make 2 4095, 4095, [], []⟩ : Reception Unit) :=
    ⟨2, 4095, by decide, by decide, by decide, rfl⟩
  have early := System.Run.step (@System.Run.initial _ _ (system Unit) _ initial)
    (show step _ (.mpdu (4096, ())) = some _ from rfl)
  have late := early.step (show step _ (.mpdu (4095, ())) = some _ from rfl)
  have wellFormed : compressed.WellFormed := by
    rw [CtrlBAckResponseHeader.WellFormed, if_neg (by decide)]
    exact ⟨by decide, 8, _, rfl, rfl, ⟨by decide, rfl, by decide⟩, by decide, by decide, by decide⟩
  refine ⟨_, rfl, blockAck_tells late ?_ wellFormed rfl rfl (by decide) (by decide)⟩
  simp only [nil_append, cons_append, forall_mem_cons]
  exact ⟨by decide +kernel, by decide +kernel, forall_mem_nil _⟩

end Reception
end Ns3.Wifi.BlockAckResponse
