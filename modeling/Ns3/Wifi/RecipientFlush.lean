import Ns3.Wifi.RecipientReordering
import Ns3.Semantics.Run

/-!
# Flushing a block ack agreement

`Flush` moves `WinStartB` to the start of the scoreboard, and passes up what follows without a loss.
What waits behind a gap from there on stays, although it may have been acknowledged.
-/

namespace Ns3.Wifi

open Ns3.Semantics ReorderBuffer List Option

namespace RecipientBlockAckAgreement

variable {Body Other : Type}

def flush (agreement : RecipientBlockAckAgreement Body) : Option (PassedUp Body) :=
  (agreement.passBufferedMpdusWithSeqNumberLessThan agreement.scoreboard.winStart).bind fun less =>
    less.2.passBufferedMpdusUntilFirstLost.map fun run => (less.1 ++ run.1, run.2)

/-- `BlockAckManager::DestroyRecipientAgreement`, with what is passed up. The key is the originator,
the TID and the group. -/
def destroyRecipientAgreement {Key : Type} [DecidableEq Key]
    (recipientAgreements : List (Key × RecipientBlockAckAgreement Body)) (key : Key) :
    Option (List (WifiMpdu Body) × List (Key × RecipientBlockAckAgreement Body)) :=
  match recipientAgreements.find? fun it => it.1 = key with
  | none => some ([], recipientAgreements)
  | some it => it.2.flush.map fun out => (out.1, recipientAgreements.eraseP fun it => it.1 = key)

end RecipientBlockAckAgreement

def WifiMpdu.mapBody {Body Other : Type} (f : Body -> Other) (mpdu : WifiMpdu Body) : WifiMpdu Other :=
  ⟨mpdu.sequenceNumber, f mpdu.body⟩

@[simp] theorem WifiMpdu.mapBody_sequenceNumber {Body Other : Type} (f : Body -> Other) (mpdu : WifiMpdu Body) :
    (mpdu.mapBody f).sequenceNumber = mpdu.sequenceNumber := rfl

namespace RecipientBlockAckAgreement

variable {Body Other : Type} (f : Body -> Other) (agreement : RecipientBlockAckAgreement Body)

def mapBody : RecipientBlockAckAgreement Other where
  scoreboard := agreement.scoreboard
  winStartB := agreement.winStartB
  winSizeB := agreement.winSizeB
  bufferedMpdus := agreement.bufferedMpdus.map (WifiMpdu.mapBody f)

def mapOut (out : PassedUp Body) : PassedUp Other :=
  (out.1.map (WifiMpdu.mapBody f), out.2.mapBody f)

theorem insert_mapBody (start : Nat) (mpdu : WifiMpdu Body) (buffered : List (WifiMpdu Body)) :
    insert start (mpdu.mapBody f) (buffered.map (WifiMpdu.mapBody f)) =
      (insert start mpdu buffered).map (WifiMpdu.mapBody f) := by
  induction buffered with
  | nil => rfl
  | cons it rest ih =>
    rw [map_cons, insert, insert, ih]
    by_cases before : compare start mpdu.sequenceNumber it.sequenceNumber = true
    · simp only [WifiMpdu.mapBody_sequenceNumber, before, reduceIte, map_cons]
    · by_cases behind : compare start it.sequenceNumber mpdu.sequenceNumber = true
      · simp only [WifiMpdu.mapBody_sequenceNumber, before, behind, reduceIte, map_cons, Bool.false_eq_true]
      · simp only [WifiMpdu.mapBody_sequenceNumber, before, behind, reduceIte, map_cons, Bool.false_eq_true]

theorem noOldMpdus_mapBody : (agreement.mapBody f).noOldMpdus = agreement.noOldMpdus := by
  rw [noOldMpdus, noOldMpdus, mapBody, getLast?_map]
  cases agreement.bufferedMpdus.getLast? <;> rfl

theorem forwardRun_mapBody (start : Nat) (buffered : List (WifiMpdu Body)) :
    forwardRun start (buffered.map (WifiMpdu.mapBody f)) =
      ((forwardRun start buffered).1.map (WifiMpdu.mapBody f), (forwardRun start buffered).2.1,
        (forwardRun start buffered).2.2.map (WifiMpdu.mapBody f)) := by
  induction buffered generalizing start with
  | nil => rfl
  | cons it rest ih =>
    rw [map_cons, forwardRun, forwardRun]
    by_cases here : it.sequenceNumber = start
    · simp only [WifiMpdu.mapBody_sequenceNumber, ih, here, reduceIte, map_cons]
    · simp only [WifiMpdu.mapBody_sequenceNumber, here, reduceIte, map_cons, map_nil]

theorem forwardLess_mapBody (start bound : Nat) (buffered : List (WifiMpdu Body)) :
    forwardLess start bound (buffered.map (WifiMpdu.mapBody f)) =
      (forwardLess start bound buffered).map fun out =>
        (out.1.map (WifiMpdu.mapBody f), out.2.map (WifiMpdu.mapBody f)) := by
  induction buffered with
  | nil => rfl
  | cons it rest ih =>
    rw [map_cons, forwardLess, forwardLess]
    simp only [WifiMpdu.mapBody_sequenceNumber]
    cases getDistance it.sequenceNumber start with
    | none => rfl
    | some its =>
      cases getDistance bound start with
      | none => rfl
      | some ahead =>
        simp only [bind_some]
        by_cases less : its < ahead
        · simp only [if_pos less, ih, Option.map_map]
          rfl
        · simp only [if_neg less]
          rfl

theorem passUntilFirstLost_mapBody : (agreement.mapBody f).passBufferedMpdusUntilFirstLost =
    agreement.passBufferedMpdusUntilFirstLost.map (mapOut f) := by
  rw [passBufferedMpdusUntilFirstLost, passBufferedMpdusUntilFirstLost, noOldMpdus_mapBody, Option.map_map]
  congr 1
  ext : 1
  simp only [mapBody, forwardRun_mapBody]
  rfl

theorem passLess_mapBody (bound : Nat) : (agreement.mapBody f).passBufferedMpdusWithSeqNumberLessThan bound =
    (agreement.passBufferedMpdusWithSeqNumberLessThan bound).map (mapOut f) := by
  rw [passBufferedMpdusWithSeqNumberLessThan, passBufferedMpdusWithSeqNumberLessThan, noOldMpdus_mapBody]
  cases agreement.noOldMpdus with
  | none => rfl
  | some _ =>
    simp only [mapBody, bind_some, forwardLess_mapBody, Option.map_map]
    rfl

theorem passTo_mapBody (bound : Nat) :
    (agreement.mapBody f).passBufferedMpdusTo bound = (agreement.passBufferedMpdusTo bound).map (mapOut f) := by
  rw [passBufferedMpdusTo, passBufferedMpdusTo, passLess_mapBody]
  cases agreement.passBufferedMpdusWithSeqNumberLessThan bound with
  | none => rfl
  | some less =>
    simp only [map_some, bind_some, mapOut, passUntilFirstLost_mapBody, Option.map_map]
    congr 1
    ext : 1
    simp [mapOut]

theorem flush_mapBody : (agreement.mapBody f).flush = agreement.flush.map (mapOut f) :=
  passTo_mapBody f agreement agreement.scoreboard.winStart

theorem bufferMpdu_mapBody (mpdu : WifiMpdu Body) :
    (agreement.mapBody f).bufferMpdu (mpdu.mapBody f) = (agreement.bufferMpdu mpdu).map (mapOut f) := by
  have inserted : { agreement.mapBody f with
      bufferedMpdus :=
        insert agreement.winStartB (mpdu.mapBody f)
          (agreement.bufferedMpdus.map (WifiMpdu.mapBody f)) } =
        mapBody f { agreement with bufferedMpdus := insert agreement.winStartB mpdu agreement.bufferedMpdus } := by
    rw [insert_mapBody]
    rfl
  rw [bufferMpdu, bufferMpdu]
  cases isDistance : getDistance mpdu.sequenceNumber agreement.winStartB with
  | none =>
    change (getDistance mpdu.sequenceNumber agreement.winStartB).bind _ = none
    rw [isDistance]
    rfl
  | some dist =>
    change (getDistance mpdu.sequenceNumber agreement.winStartB).bind _ = _
    rw [isDistance, bind_some, bind_some]
    by_cases inside : dist < agreement.winSizeB
    · rw [if_pos inside, ← passUntilFirstLost_mapBody, ← inserted]
      exact if_pos inside
    · rw [if_neg inside]
      refine (if_neg inside).trans ?_
      by_cases near : dist < seqnoSpaceHalfSize
      · rw [if_pos near, if_pos near, ← passTo_mapBody, ← inserted]
        rfl
      · rw [if_neg near, if_neg near]
        rfl

theorem bufferBar_mapBody (number : Nat) :
    (agreement.mapBody f).bufferBar number = (agreement.bufferBar number).map (mapOut f) := by
  rw [bufferBar, bufferBar]
  cases isDistance : getDistance number agreement.winStartB with
  | none =>
    change (getDistance number agreement.winStartB).bind _ = none
    rw [isDistance]
    rfl
  | some dist =>
    change (getDistance number agreement.winStartB).bind _ = _
    rw [isDistance, bind_some, bind_some]
    by_cases new : 0 < dist ∧ dist < seqnoSpaceHalfSize
    · rw [if_pos new, if_pos new, passTo_mapBody]
    · rw [if_neg new, if_neg new]
      rfl

theorem notifyReceivedMpdu_mapBody (mpdu : WifiMpdu Body) :
    (agreement.mapBody f).notifyReceivedMpdu (mpdu.mapBody f) = (agreement.notifyReceivedMpdu mpdu).map (mapOut f) := by
  rw [notifyReceivedMpdu, notifyReceivedMpdu, Option.map_bind]
  apply Option.bind_congr
  intro scoreboard _
  exact bufferMpdu_mapBody f { agreement with scoreboard := scoreboard } mpdu

theorem notifyReceivedBar_mapBody (number : Nat) :
    (agreement.mapBody f).notifyReceivedBar number = (agreement.notifyReceivedBar number).map (mapOut f) := by
  rw [notifyReceivedBar, notifyReceivedBar, Option.map_bind]
  apply Option.bind_congr
  intro scoreboard _
  exact bufferBar_mapBody f { agreement with scoreboard := scoreboard } number

end RecipientBlockAckAgreement

/-- What an agreement is told. -/
inductive Notification (Body : Type) where
  | receivedMpdu (mpdu : WifiMpdu Body)
  | receivedBar (startingSequenceNumber : Nat)

namespace RecipientBlockAckAgreement

variable {Body : Type} {agreement next : RecipientBlockAckAgreement Body}

def notified (agreement : RecipientBlockAckAgreement Body) : Notification Body -> Option (PassedUp Body)
  | .receivedMpdu mpdu => agreement.notifyReceivedMpdu mpdu
  | .receivedBar startingSequenceNumber => agreement.notifyReceivedBar startingSequenceNumber

/-- An agreement with a buffer for 1024 MPDUs at most, and any history. -/
def histories (Body : Type) : System (RecipientBlockAckAgreement Body) (Notification Body) where
  Initial agreement :=
    ∃ bufferSize startingSeq, 1 ≤ bufferSize ∧ bufferSize ≤ 1024 ∧ startingSeq < seqnoSpaceSize ∧
      agreement = make bufferSize startingSeq
  step agreement notification := (agreement.notified notification).map Prod.snd

/-- The agreement is one whose numbers are unwrapped, and which is a reorder buffer. -/
structure Unwraps (agreement : RecipientBlockAckAgreement Body) (lifted : RecipientBlockAckAgreement (Int × Body))
    (buffer : ReorderBuffer Body) : Prop where
  same : lifted.mapBody Prod.snd = agreement
  represents : lifted.Represents buffer
  ordered : buffer.Ordered lifted.winSizeB
  positive : 0 < lifted.winSizeB
  small : lifted.winSizeB ≤ 1024
  wellFormed : lifted.scoreboard.WellFormed
  sameSize : lifted.scoreboard.getWinSize = lifted.winSizeB

/-- Each sequence number is one of a number within reach. -/
theorem exists_near (start : Int) {seq : Nat} (isNumber : seq < seqnoSpaceSize) :
    ∃ number, wrap number = seq ∧ start - 2048 ≤ number ∧ number ≤ start + 2048 := by
  rw [seqnoSpaceSize] at isNumber
  refine ⟨start - 2048 + (seq - (start - 2048)) % 4096, ?_, ?_, ?_⟩
  · rw [wrap]
    omega
  · omega
  · omega

theorem getDistance_isSome {seq start ahead : Nat} (isSome : getDistance seq start = some ahead) :
    seq < seqnoSpaceSize := by
  rw [getDistance] at isSome
  split at isSome
  next both => exact both.1
  next => cases isSome

theorem unwraps_initial (initial : (histories Body).Initial agreement) : ∃ lifted buffer,
    agreement.Unwraps lifted buffer := by
  obtain ⟨bufferSize, startingSeq, pos, small, isStart, rfl⟩ := initial
  have startWrap : startingSeq = wrap (startingSeq : Int) := by
    rw [wrap, seqnoSpaceSize] at *
    omega
  refine ⟨make bufferSize startingSeq, ⟨startingSeq, []⟩, ⟨rfl, ⟨startWrap, rfl⟩, ?_, pos, small,
    BlockAckWindow.wellFormed_init pos isStart, length_replicate⟩⟩
  exact ⟨List.Pairwise.nil, fun _ mem => absurd mem not_mem_nil⟩

theorem Unwraps.call {lifted : RecipientBlockAckAgreement (Int × Body)} {buffer : ReorderBuffer Body} {call : Call Body}
    {out : PassedUp Body} (unwraps : agreement.Unwraps lifted buffer)
    (near : buffer.start - 2048 ≤ call.unwrapped ∧ call.unwrapped ≤ buffer.start + 2048)
    (same : (lifted.notify call).map (mapOut Prod.snd) = some out) : ∃ lifted buffer, out.2.Unwraps lifted buffer := by
  obtain ⟨scoreboard, liftedOut, isOut, heard, passes⟩ :=
    notify_spec unwraps.represents unwraps.ordered unwraps.positive
    unwraps.small unwraps.wellFormed unwraps.sameSize near
  obtain ⟨taken, takes⟩ := takes_after unwraps.ordered unwraps.positive unwraps.small call
  have board : liftedOut.2.scoreboard = scoreboard := passes.scoreboard
  have size : liftedOut.2.winSizeB = lifted.winSizeB := passes.winSizeB
  rw [isOut, map_some] at same
  cases same
  refine ⟨liftedOut.2, _, ⟨rfl, passes.represents, ?_, ?_, ?_, ?_, ?_⟩⟩
  · rw [size]
    exact takes.ordered
  · exact unwraps.positive.trans_eq size.symm
  · exact size.trans_le unwraps.small
  · rw [board]
    exact heard.wellFormed
  · rw [board, size, heard.size]
    exact unwraps.sameSize

/-- In every history the numbers can be unwrapped. -/
theorem reachable_unwraps (reachable : (histories Body).Reachable agreement) :
    ∃ lifted buffer, agreement.Unwraps lifted buffer := by
  refine reachable.invariant (fun agreement => ∃ lifted buffer, agreement.Unwraps lifted buffer)
    (fun _ => unwraps_initial) ?_
  rintro agreement notification next ⟨lifted, buffer, unwraps⟩ stepped
  obtain ⟨out, isOut, rfl⟩ := map_eq_some_iff.mp stepped
  cases notification with
  | receivedMpdu mpdu =>
    have received : agreement.notifyReceivedMpdu mpdu = some out := isOut
    obtain ⟨scoreboard, isScored, -⟩ := bind_eq_some_iff.mp received
    obtain ⟨ahead, isAhead, -⟩ := bind_eq_some_iff.mp isScored
    obtain ⟨number, isWrapped, near⟩ := exists_near buffer.start (getDistance_isSome isAhead)
    have isMpdu : (wrapped (number, mpdu.body)).mapBody Prod.snd = mpdu := by
      rw [wrapped, isWrapped]
      rfl
    refine @Unwraps.call _ _ _ _ (.mpdu (number, mpdu.body)) out unwraps near ?_
    rw [notify, ← notifyReceivedMpdu_mapBody, unwraps.same, isMpdu]
    exact received
  | receivedBar number =>
    have received : agreement.notifyReceivedBar number = some out := isOut
    obtain ⟨scoreboard, isScored, -⟩ := bind_eq_some_iff.mp received
    obtain ⟨ahead, isAhead, -⟩ := bind_eq_some_iff.mp isScored
    obtain ⟨unwrapped, isWrapped, near⟩ := exists_near buffer.start (getDistance_isSome isAhead)
    refine @Unwraps.call _ _ _ _ (.bar unwrapped) out unwraps near ?_
    rw [notify, ← notifyReceivedBar_mapBody, unwraps.same, isWrapped]
    exact received

/-- Every MPDU that waits is passed up once, in the order of the numbers, and none is left. -/
def FlushesAll (agreement : RecipientBlockAckAgreement Body) : Prop :=
  ∃ out, agreement.flush = some out ∧ out.1.Perm agreement.bufferedMpdus ∧ out.2.bufferedMpdus = [] ∧
    out.1.Pairwise fun first second =>
      distance first.sequenceNumber agreement.winStartB < distance second.sequenceNumber agreement.winStartB

/-- No number is missing between the start of the scoreboard and an MPDU that waits, counted from
`WinStartB`. -/
def NoneMissing (agreement : RecipientBlockAckAgreement Body) : Prop :=
  ∀ mpdu ∈ agreement.bufferedMpdus, ∀ ahead, distance agreement.scoreboard.winStart agreement.winStartB ≤ ahead ->
    ahead ≤ distance mpdu.sequenceNumber agreement.winStartB ->
      ∃ other ∈ agreement.bufferedMpdus, distance other.sequenceNumber agreement.winStartB = ahead

section

variable {lifted : RecipientBlockAckAgreement (Int × Body)} {buffer : ReorderBuffer Body}

section

variable (unwraps : agreement.Unwraps lifted buffer)
include unwraps

/-- The MPDUs that wait, by their numbers. -/
theorem Unwraps.buffered :
    agreement.bufferedMpdus = buffer.held.map fun entry => ⟨wrap entry.1, entry.2⟩ := by
  rw [← unwraps.same, mapBody, unwraps.represents.held, List.map_map]
  rfl

theorem Unwraps.distance_held {entry : Int × Body} (mem : entry ∈ buffer.held) :
    (distance (wrap entry.1) agreement.winStartB : Int) = entry.1 - buffer.start := by
  have within := unwraps.ordered.within entry mem
  have small := unwraps.small
  have start : agreement.winStartB = wrap buffer.start := by
    rw [← unwraps.same]
    exact unwraps.represents.start
  rw [start]
  exact distance_wrap within.1 (by omega)

theorem Unwraps.flush :
    ∃ out, agreement.flush = some out ∧
      out.1 = (releaseTo (buffer.start + distance agreement.scoreboard.winStart agreement.winStartB)
        buffer.held).passed.map (fun entry => ⟨wrap entry.1, entry.2⟩) ∧
      out.2.bufferedMpdus = (releaseTo (buffer.start + distance agreement.scoreboard.winStart agreement.winStartB)
        buffer.held).left.held.map fun entry => ⟨wrap entry.1, entry.2⟩ := by
  have small := unwraps.small
  have startLt := unwraps.wellFormed.start_lt
  have isBoard : agreement.scoreboard = lifted.scoreboard := by
    rw [← unwraps.same]
    rfl
  have start : agreement.winStartB = wrap buffer.start := by
    rw [← unwraps.same]
    exact unwraps.represents.start
  have less : distance lifted.scoreboard.winStart (wrap buffer.start) < 4096 := Nat.mod_lt _ (by decide)
  have bound : wrap (buffer.start + distance lifted.scoreboard.winStart (wrap buffer.start)) =
    lifted.scoreboard.winStart := by
    rw [distance, wrap, wrap, seqnoSpaceSize] at *
    omega
  obtain ⟨out, isOut, passes⟩ :=
    @passTo_spec Body (buffer.start + distance lifted.scoreboard.winStart (wrap buffer.start))
    lifted buffer unwraps.represents unwraps.ordered.increasing
    (fun other mem => by
      have within := unwraps.ordered.within other mem
      omega)
    (by omega)
  rw [bound] at isOut
  refine ⟨mapOut Prod.snd out, ?_, ?_, ?_⟩
  · rw [← unwraps.same, flush_mapBody]
    exact congrArg (Option.map (mapOut Prod.snd)) isOut
  · rw [isBoard, start, mapOut, passes.items, List.map_map]
    rfl
  · rw [isBoard, start, mapOut, mapBody, passes.represents.held, List.map_map]
    rfl

end

end

/-- After any history, a flush passes everything up exactly if no number is missing from the start
of the scoreboard on. -/
theorem flushesAll_iff (reachable : (histories Body).Reachable agreement) : agreement.FlushesAll ↔
    agreement.NoneMissing := by
  obtain ⟨lifted, buffer, unwraps⟩ := reachable_unwraps reachable
  obtain ⟨out, isOut, items, left⟩ := unwraps.flush
  have released := @released_releaseTo Body buffer.start
    (buffer.start +
      distance agreement.scoreboard.winStart agreement.winStartB) buffer.held unwraps.ordered.increasing (by omega)
  have flushes : agreement.FlushesAll ↔
      (releaseTo (buffer.start +
        distance agreement.scoreboard.winStart agreement.winStartB) buffer.held).left.held =
        [] := by
    constructor
    · rintro ⟨other, isOther, -, isEmpty, -⟩
      cases isOut.symm.trans isOther
      exact map_eq_nil_iff.mp (left.symm.trans isEmpty)
    · intro nothingLeft
      have whole := released.whole
      rw [nothingLeft, append_nil] at whole
      rw [whole, ← unwraps.buffered] at items
      refine ⟨out, isOut, items ▸ List.Perm.refl _, ?_, ?_⟩
      · rw [left, nothingLeft, map_nil]
      · rw [items, unwraps.buffered]
        refine pairwise_map.mpr (unwraps.ordered.increasing.imp_of_mem fun isFirst isSecond less => ?_)
        have ofFirst := unwraps.distance_held isFirst
        have ofSecond := unwraps.distance_held isSecond
        simp only
        omega
  rw [flushes, releaseTo_left_eq_nil_iff unwraps.ordered.increasing]
  constructor
  · intro noGap mpdu member ahead atLeast atMost
    rw [unwraps.buffered] at member ⊢
    obtain ⟨entry, isHeld, rfl⟩ := List.mem_map.mp member
    have ofEntry := unwraps.distance_held isHeld
    simp only at atMost
    obtain ⟨other, isOther, same⟩ := noGap entry isHeld (buffer.start + ahead) (by omega) (by omega)
    have ofOther := unwraps.distance_held isOther
    exact ⟨_, List.mem_map_of_mem isOther, by simp only; omega⟩
  · intro noneMissing entry isHeld number atLeast atMost
    have ofEntry := unwraps.distance_held isHeld
    obtain ⟨mpdu, member, same⟩ := noneMissing ⟨wrap entry.1, entry.2⟩
      (unwraps.buffered ▸ List.mem_map_of_mem isHeld) (number - buffer.start).toNat (by omega) (by simp only; omega)
    rw [unwraps.buffered] at member
    obtain ⟨other, isOther, rfl⟩ := List.mem_map.mp member
    have ofOther := unwraps.distance_held isOther
    simp only at same
    exact ⟨other, isOther, by omega⟩

/-- A buffer for two MPDUs, of which the second one has been received. -/
def secondReceived : RecipientBlockAckAgreement Unit where
  scoreboard := ⟨0, [false, true], 0⟩
  winStartB := 0
  winSizeB := 2
  bufferedMpdus := [⟨1, ()⟩]

/-- It is acknowledged, and lost when the agreement is destroyed. -/
theorem secondReceived_not_flushesAll : (histories Unit).Reachable secondReceived ∧
    (secondReceived.fillBlockAckBitmap ⟨.compressed, 8, 0, []⟩).map (fun header => header.bitOf 1) = some true ∧
    destroyRecipientAgreement [((), secondReceived)] () = some ([], []) ∧ ¬secondReceived.FlushesAll := by
  have isFlush : secondReceived.flush = some ([], secondReceived) := by rfl
  have reachable : (histories Unit).Reachable secondReceived := by
    have isNew : (histories Unit).Initial (make 2 0) := ⟨2, 0, by decide, by decide, by decide, rfl⟩
    exact System.reachable_of_exec isNew [.receivedMpdu ⟨1, ()⟩] rfl
  refine ⟨reachable, by decide +kernel, by rfl, ?_⟩
  rintro ⟨out, isOut, -, isEmpty, -⟩
  cases isFlush.symm.trans isOut
  cases isEmpty

/-- A buffer for four MPDUs, of which the first and the third one have been received. -/
def thirdReceived : RecipientBlockAckAgreement Unit where
  scoreboard := ⟨0, [true, false, true, false], 0⟩
  winStartB := 1
  winSizeB := 4
  bufferedMpdus := [⟨2, ()⟩]

theorem thirdReceived_flushesAll : thirdReceived.FlushesAll := by
  have reachable : (histories Unit).Reachable thirdReceived := by
    have isNew : (histories Unit).Initial (make 4 0) := ⟨4, 0, by decide, by decide, by decide, rfl⟩
    exact System.reachable_of_exec isNew [.receivedMpdu ⟨0, ()⟩, .receivedMpdu ⟨2, ()⟩] rfl
  apply (flushesAll_iff reachable).mpr
  intro mpdu member ahead atLeast atMost
  obtain rfl := mem_singleton.mp member
  have isStart : distance thirdReceived.scoreboard.winStart thirdReceived.winStartB = 4095 := by decide
  have isAhead : distance 2 thirdReceived.winStartB = 1 := by decide
  rw [isStart] at atLeast
  simp only [isAhead] at atMost
  omega

end RecipientBlockAckAgreement

end Ns3.Wifi
