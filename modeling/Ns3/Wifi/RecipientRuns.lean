import Ns3.Wifi.RecipientReordering
import Ns3.Semantics.Run

/-!
# Runs of the recipient

A recipient with a buffer of at most 1024 MPDUs that is called with numbers within 2048 of
`WinStartB` passes MPDUs up in order, each at most once and each that waits, and no assertion fails.
The bitmap of a block ack knows which of the numbers that the scoreboard covers were heard since it
covers them.
-/

namespace Ns3.Wifi

open Ns3.Semantics ReorderBuffer RecipientBlockAckAgreement List

/-- The recipient, with `WinStartB` unwrapped, what has been passed up, and the calls with the
scoreboard after each. -/
structure Reception (Item : Type) where
  agreement : RecipientBlockAckAgreement (Int × Item)
  start : Int
  passed : List (Int × Item)
  log : List (Call Item × BlockAckWindow)

namespace Reception

variable {Item : Type}

variable (state : Reception Item)

/-- `WinStartB` is unwrapped by how far it is ahead of what it was. -/
def step (call : Call Item) : Option (Reception Item) :=
  (state.agreement.notify call).map fun out =>
    { agreement := out.2
      start := state.start + distance out.2.winStartB state.agreement.winStartB
      passed := state.passed ++ out.1.map (·.body)
      log := state.log ++ [(call, out.2.scoreboard)] }

def Initial : Prop :=
  ∃ bufferSize startingSeq, 1 ≤ bufferSize ∧ bufferSize ≤ 1024 ∧ startingSeq < seqnoSpaceSize ∧
    state = ⟨make bufferSize startingSeq, startingSeq, [], []⟩

def system (Item : Type) : System (Reception Item) (Call Item) where
  Initial := Initial
  step := step

/-- The number of the call is within 2048 of `WinStartB`. -/
def Within (call : Call Item) : Prop :=
  state.start - 2048 ≤ call.unwrapped ∧ call.unwrapped ≤ state.start + 2048

instance (state : Reception Item) (call : Call Item) : Decidable (state.Within call) :=
  inferInstanceAs (Decidable (_ ∧ _))

/-- An MPDU with a number was received, and the scoreboard has covered the number since. -/
def HeardSinceCovered (log : List (Call Item × BlockAckWindow)) (seq : Nat) : Prop :=
  ∃ earlier now later, log = earlier ++ now :: later ∧ now.1.HasMpdu seq ∧ ∀ entry ∈ now :: later, entry.2.Covers seq

/-- What holds of a recipient at any time. -/
structure Sound (state : Reception Item) : Prop where
  winStartB : state.agreement.winStartB = wrap state.start
  increasing : state.passed.Pairwise fun first second => first.1 < second.1
  passed : ∀ entry ∈ state.passed, entry.1 < state.start
  buffered : ∀ mpdu ∈ state.agreement.bufferedMpdus, mpdu.sequenceNumber = wrap mpdu.body.1 ∧
    state.start ≤ mpdu.body.1 ∧ mpdu.body.1 < state.start + state.agreement.winSizeB
  bitmap : ∀ header : CtrlBAckResponseHeader, header.variant ≠ .basic ∧ header.variant ≠ .multiTid ->
    ∃ filled, state.agreement.fillBlockAckBitmap header = some filled ∧
      ∀ seq, seq < seqnoSpaceSize -> filled.isInBitmap seq = true -> (filled.bitOf seq = true ↔
          state.agreement.scoreboard.Covers seq ∧ HeardSinceCovered state.log seq)

/-- What a call does. -/
structure SoundStep (state : Reception Item) (call : Call Item) (next : Reception Item) : Prop where
  forwards : state.start ≤ next.start ∧ next.start ≤ state.start + 2048
  /-- What waits is passed up when `WinStartB` moves past it, and stays otherwise. -/
  waiting : ∀ mpdu ∈ state.agreement.bufferedMpdus,
    if mpdu.body.1 < next.start then mpdu.body ∈ next.passed else mpdu ∈ next.agreement.bufferedMpdus
  /-- An MPDU that is new is taken. -/
  taken : ∀ entry, call = .mpdu entry -> state.start ≤ entry.1 -> entry.1 < state.start + 2048 ->
    (∀ mpdu ∈ state.agreement.bufferedMpdus, mpdu.body.1 ≠ entry.1) ->
      if entry.1 < next.start then entry ∈ next.passed else wrapped entry ∈ next.agreement.bufferedMpdus
  /-- Nothing else is passed up. -/
  origin : ∀ entry ∈ next.passed, entry ∈ state.passed ∨ wrapped entry ∈ state.agreement.bufferedMpdus ∨
    call = .mpdu entry

variable {state next : Reception Item} {call : Call Item} {log : List (Call Item × BlockAckWindow)}
  {scoreboard : BlockAckWindow} {seq : Nat}

structure Inv (state : Reception Item) (held : List (Int × Item)) : Prop where
  represents : state.agreement.Represents ⟨state.start, held⟩
  ordered : Ordered state.agreement.winSizeB ⟨state.start, held⟩
  positive : 0 < state.agreement.winSizeB
  small : state.agreement.winSizeB ≤ 1024
  wellFormed : state.agreement.scoreboard.WellFormed
  sameSize : state.agreement.scoreboard.getWinSize = state.agreement.winSizeB
  increasing : state.passed.Pairwise fun first second => first.1 < second.1
  passed : ∀ entry ∈ state.passed, entry.1 < state.start
  current : ∀ entry ∈ state.log.getLast?, entry.2 = state.agreement.scoreboard
  marked : ∀ seq, seq < seqnoSpaceSize -> state.agreement.scoreboard.Covers seq ->
    (state.agreement.scoreboard.marked seq = true ↔ HeardSinceCovered state.log seq)

theorem heardSinceCovered_append (covers : scoreboard.Covers seq) :
    HeardSinceCovered (log ++ [(call, scoreboard)]) seq ↔ call.HasMpdu seq ∨ HeardSinceCovered log seq := by
  constructor
  · rintro ⟨earlier, now, later, split, isMpdu, covered⟩
    cases later using reverseRecOn with
    | nil =>
      obtain ⟨-, same⟩ := append_inj' split rfl
      obtain rfl := singleton_inj.mp same
      exact .inl isMpdu
    | append_singleton later last =>
      rw [← cons_append, ← append_assoc] at split
      obtain ⟨rfl, -⟩ := append_inj' split rfl
      exact .inr ⟨earlier, now, later, rfl, isMpdu, fun entry mem =>
        covered entry (mem_append_left [last] mem)⟩
  · rintro (isMpdu | ⟨earlier, now, later, rfl, isMpdu, covered⟩)
    · refine ⟨log, _, [], rfl, isMpdu, fun entry mem => ?_⟩
      obtain rfl := mem_singleton.mp mem
      exact covers
    · refine ⟨earlier, now, later ++ [(call, scoreboard)], by simp, isMpdu, fun entry mem => ?_⟩
      rw [← cons_append] at mem
      rcases mem_append.mp mem with old | isLast
      · exact covered entry old
      · obtain rfl := mem_singleton.mp isLast
        exact covers

/-- What was heard since it is covered is covered by the last scoreboard. -/
theorem HeardSinceCovered.covers (heard : HeardSinceCovered log seq) :
    ∃ entry ∈ log.getLast?, entry.2.Covers seq := by
  obtain ⟨earlier, now, later, rfl, -, covered⟩ := heard
  refine ⟨(now :: later).getLast (cons_ne_nil _ _), ?_, covered _ (getLast_mem _)⟩
  rw [getLast?_append_of_ne_nil _ (cons_ne_nil _ _), getLast?_eq_getLast_of_ne_nil (cons_ne_nil _ _)]
  rfl

theorem inv_initial (initial : Initial state) : ∃ held, Inv state held := by
  obtain ⟨bufferSize, startingSeq, pos, small, isStart, rfl⟩ := initial
  have startWrap : startingSeq = wrap (startingSeq : Int) := by
    rw [wrap, seqnoSpaceSize] at *
    omega
  refine ⟨[], ⟨startWrap, rfl⟩, ⟨List.Pairwise.nil, fun _ mem => absurd mem not_mem_nil⟩, pos, small,
    BlockAckWindow.wellFormed_init pos isStart, length_replicate, List.Pairwise.nil,
    fun _ mem => absurd mem not_mem_nil, fun _ isLast => absurd isLast (Option.not_mem_none _), fun seq _ _ => ?_⟩
  simp only [make, BlockAckWindow.marked, BlockAckWindow.bit_init]
  refine iff_of_false Bool.false_ne_true ?_
  rintro ⟨earlier, now, later, split, -⟩
  simp at split

theorem Inv.sound {held : List (Int × Item)} (inv : Inv state held) : Sound state where
  winStartB := inv.represents.start
  increasing := inv.increasing
  passed := inv.passed
  buffered := by
    intro mpdu mem
    rw [inv.represents.held] at mem
    obtain ⟨entry, isHeld, rfl⟩ := mem_map.mp mem
    exact ⟨rfl, inv.ordered.within entry isHeld⟩
  bitmap := by
    intro header supported
    have small : state.agreement.scoreboard.getWinSize ≤ seqnoSpaceSize := by
      rw [inv.sameSize]
      exact inv.small.trans (by decide)
    obtain ⟨filled, isFilled, bits⟩ := fillBlockAckBitmap_spec inv.wellFormed small supported
    refine ⟨filled, isFilled, fun seq isNumber inBitmap => ?_⟩
    rw [bits seq isNumber inBitmap]
    exact and_congr_right fun covers => inv.marked seq isNumber covers

/-- Where what was taken in is after a release. -/
theorem mem_passed_or_held {start : Int} {taken : List (Int × Item)} {release : Release Item} {entry : Int × Item}
    (released : Released start taken release) (isTaken : entry ∈ taken) :
    if entry.1 < release.left.start then entry ∈ release.passed else entry ∈ release.left.held := by
  rw [← released.whole] at isTaken
  rcases mem_append.mp isTaken with isPassed | isLeft
  · rw [if_pos (released.passed entry isPassed)]
    exact isPassed
  · rw [if_neg (Int.not_lt_of_ge (released.left entry isLeft))]
    exact isLeft

theorem Inv.step {held : List (Int × Item)} (inv : Inv state held) (within : state.Within call) :
    ∃ next held', state.step call = some next ∧ SoundStep state call next ∧ Inv next held' := by
  obtain ⟨scoreboard, out, isOut, heard, passes⟩ := notify_spec inv.represents inv.ordered inv.positive inv.small
    inv.wellFormed inv.sameSize within
  obtain ⟨taken, takes⟩ := takes_after inv.ordered inv.positive inv.small call
  generalize after state.agreement.winSizeB ⟨state.start, held⟩ call = release at passes takes
  have forwards : state.start ≤ release.left.start := takes.released.forwards
  have near : release.left.start ≤ state.start + 2048 := takes.near
  have start : state.start + distance out.2.winStartB state.agreement.winStartB = release.left.start := by
    rw [passes.represents.start, inv.represents.start]
    have moved := @distance_wrap release.left.start state.start forwards (by omega)
    simp only
    omega
  have items : out.1.map (·.body) = release.passed := by
    rw [passes.items, map_map]
    exact map_id _
  have isNext : state.step call = some
      { agreement := out.2
        start := release.left.start
        passed := state.passed ++ release.passed
        log := state.log ++ [(call, out.2.scoreboard)] } := by
    rw [Reception.step, isOut, Option.map_some, start, items]
  have board : out.2.scoreboard = scoreboard := passes.scoreboard
  have size : out.2.winSizeB = state.agreement.winSizeB := passes.winSizeB
  have moved : ∀ entry ∈ taken,
      if entry.1 < release.left.start then entry ∈ state.passed ++ release.passed
      else wrapped entry ∈ out.2.bufferedMpdus := by
    intro entry isTaken
    have either := mem_passed_or_held takes.released isTaken
    split at either
    next before =>
      rw [if_pos before]
      exact mem_append_right _ either
    next notBefore =>
      rw [if_neg notBefore, passes.represents.held]
      exact mem_map_of_mem either
  refine ⟨_, release.left.held, isNext, ⟨⟨forwards, near⟩, ?_, ?_, ?_⟩, ?_⟩
  · intro mpdu mem
    rw [inv.represents.held] at mem
    obtain ⟨entry, isHeld, rfl⟩ := mem_map.mp mem
    exact moved entry (takes.kept entry isHeld)
  · intro entry isMpdu atLeast less new
    have isNew : ∀ other ∈ held, other.1 ≠ entry.1 := by
      intro other isHeld
      apply new (wrapped other)
      rw [inv.represents.held]
      exact mem_map_of_mem isHeld
    exact moved entry (takes.new entry isMpdu atLeast less isNew)
  · intro entry mem
    rcases mem_append.mp mem with old | isPassed
    · exact .inl old
    · right
      have isTaken : entry ∈ taken := by
        rw [← takes.released.whole]
        exact mem_append_left _ isPassed
      refine (takes.origin entry isTaken).imp (fun isHeld => ?_) id
      rw [inv.represents.held]
      exact mem_map_of_mem isHeld
  · refine ⟨passes.represents, ?_, ?_, ?_, ?_, ?_, ?_, ?_, ?_, ?_⟩
    · rw [size]
      exact takes.ordered
    · exact inv.positive.trans_eq size.symm
    · exact size.trans_le inv.small
    · rw [board]
      exact heard.wellFormed
    · rw [board, size, heard.size]
      exact inv.sameSize
    · refine pairwise_append.mpr ⟨inv.increasing, ?_, fun old isOld new isNew => ?_⟩
      · have whole := takes.increasing
        rw [← takes.released.whole] at whole
        exact (pairwise_append.mp whole).1
      · have isTaken : new ∈ taken := by
          rw [← takes.released.whole]
          exact mem_append_left _ isNew
        exact Int.lt_of_lt_of_le (inv.passed old isOld) (takes.atLeast new isTaken)
    · intro entry mem
      rcases mem_append.mp mem with old | isPassed
      · exact Int.lt_of_lt_of_le (inv.passed entry old) forwards
      · exact takes.released.passed entry isPassed
    · intro entry isLast
      rw [getLast?_concat, Option.mem_some_iff] at isLast
      rw [← isLast]
    · intro seq isNumber covers
      have isCovered : scoreboard.Covers seq := board ▸ covers
      rw [heardSinceCovered_append covers]
      simp only [board]
      rw [heard.marked seq isNumber isCovered]
      refine or_congr Iff.rfl ⟨fun ⟨coveredBefore, isMarked⟩ => ?_, fun heardBefore => ?_⟩
      · exact (inv.marked seq isNumber coveredBefore).mp isMarked
      · obtain ⟨last, isLast, coveredBefore⟩ := heardBefore.covers
        rw [inv.current last isLast] at coveredBefore
        exact ⟨coveredBefore, (inv.marked seq isNumber coveredBefore).mpr heardBefore⟩

/-- At any time of a run whose calls are within reach, what has been passed up and what waits is as it
should be, and so is what the next call within reach does: no assertion fails. -/
theorem runs_reorder {trace : List (Reception Item × Call Item)} (run : (system Item).Run trace state)
    (within : ∀ entry ∈ trace, entry.1.Within entry.2) :
    Sound state ∧ ∀ call, state.Within call -> ∃ next, state.step call = some next ∧ SoundStep state call next := by
  have kept : ∃ held, Inv state held := by
    refine run.invariant_of_guard (fun state => ∃ held, Inv state held) Within (fun _ => inv_initial) ?_ within
    rintro state call next ⟨held, inv⟩ isWithin transition
    obtain ⟨after, held', isNext, -, kept⟩ := inv.step isWithin
    cases isNext.symm.trans transition
    exact ⟨held', kept⟩
  obtain ⟨held, inv⟩ := kept
  refine ⟨inv.sound, fun call isWithin => ?_⟩
  obtain ⟨next, held', isNext, sound, -⟩ := inv.step isWithin
  exact ⟨next, isNext, sound⟩

/-- An MPDU with number 4096 waits for the one with number 4095. -/
theorem reorders_around : ∃ state : Reception Unit, state.passed = [(4095, ()), (4096, ())] ∧ state.start = 4097 ∧
    state.agreement.winStartB = 1 ∧ Sound state ∧
    ∀ call, state.Within call -> ∃ next, state.step call = some next ∧ SoundStep state call next := by
  have initial : Initial (⟨make 2 4095, 4095, [], []⟩ : Reception Unit) :=
    ⟨2, 4095, by decide, by decide, by decide, rfl⟩
  have early := System.Run.step (@System.Run.initial _ _ (system Unit) _ initial)
    (show step _ (.mpdu (4096, ())) = some _ from rfl)
  have late := early.step (show step _ (.mpdu (4095, ())) = some _ from rfl)
  refine ⟨_, rfl, rfl, rfl, runs_reorder late ?_⟩
  simp only [nil_append, cons_append, forall_mem_cons]
  exact ⟨by decide +kernel, by decide +kernel, fun _ member => nomatch member⟩

end Reception

end Ns3.Wifi
