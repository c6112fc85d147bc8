import Ns3.Wifi.RecipientScoreboard
import Ns3.Semantics.ReorderBuffer

/-!
# Reordering by the recipient

With a buffer of at most 1024 MPDUs, the map and `WinStartB` are a reorder buffer over unbounded
numbers, taken modulo 4096: `notify_spec` says what a call does to it and to the scoreboard.
-/

namespace Ns3.Wifi

open Ns3.Semantics ReorderBuffer List Option

/-- The sequence number of an unbounded number. -/
def wrap (number : Int) : Nat :=
  (number % 4096).toNat

theorem half_eq : seqnoSpaceHalfSize = 2048 :=
  rfl

theorem wrap_lt (number : Int) : wrap number < seqnoSpaceSize := by
  rw [wrap, seqnoSpaceSize]
  omega

variable {number start : Int}

theorem distance_wrap (ahead : start ≤ number) (near : number < start + 4096) :
    (distance (wrap number) (wrap start) : Int) = number - start := by
  rw [distance, wrap, wrap, seqnoSpaceSize]
  omega

theorem distance_wrap_behind (behind : number < start) (near : start ≤ number + 4096) :
    (distance (wrap number) (wrap start) : Int) = number - start + 4096 := by
  rw [distance, wrap, wrap, seqnoSpaceSize]
  omega

theorem getDistance_wrap (number start : Int) :
    getDistance (wrap number) (wrap start) = some (distance (wrap number) (wrap start)) :=
  if_pos ⟨wrap_lt number, wrap_lt start⟩

theorem wrap_succ (start : Int) : (wrap start + 1) % seqnoSpaceSize = wrap (start + 1) := by
  rw [wrap, wrap, seqnoSpaceSize]
  omega

theorem wrap_inj (ahead : start ≤ number) (near : number < start + 4096) :
    wrap number = wrap start ↔ number = start := by
  rw [wrap, wrap]
  omega

namespace RecipientBlockAckAgreement

variable {Item : Type} {start bound number : Int} {held : List (Int × Item)} {entry : Int × Item}
  {agreement : RecipientBlockAckAgreement (Int × Item)} {buffer : ReorderBuffer Item}

/-- An MPDU that carries its unbounded number, which the program does not look at. -/
def wrapped (entry : Int × Item) : WifiMpdu (Int × Item) :=
  ⟨wrap entry.1, entry⟩

theorem compare_wrap {first second : Int} (isFirst : start ≤ first ∧ first < start + 4096)
    (isSecond : start ≤ second ∧ second < start + 4096) :
    compare (wrap start) (wrap first) (wrap second) = true ↔ first < second := by
  have firstAhead := distance_wrap isFirst.1 isFirst.2
  have secondAhead := distance_wrap isSecond.1 isSecond.2
  rw [compare, decide_eq_true_eq]
  omega

theorem insert_map (within : ∀ other ∈ held, start ≤ other.1 ∧ other.1 < start + 4096)
    (inside : start ≤ entry.1 ∧ entry.1 < start + 4096) :
    insert (wrap start) (wrapped entry) (held.map wrapped) = (hold entry held).map wrapped := by
  induction held with
  | nil => rfl
  | cons it rest ih =>
    have isIt := within it mem_cons_self
    rw [map_cons, insert, hold]
    simp only [wrapped, compare_wrap inside isIt, compare_wrap isIt inside]
    split
    · rfl
    · split
      · rw [map_cons, ← ih fun other mem => within other (mem_cons_of_mem _ mem)]
        rfl
      · rfl

theorem forwardRun_map (increasing : held.Pairwise fun first second => first.1 < second.1)
    (within : ∀ other ∈ held, start ≤ other.1 ∧ other.1 < start + 4096) :
    forwardRun (wrap start) (held.map wrapped) =
      ((releaseRun start held).passed.map wrapped, wrap (releaseRun start held).left.start,
        (releaseRun start held).left.held.map wrapped) := by
  induction held generalizing start with
  | nil => rfl
  | cons it rest ih =>
    obtain ⟨least, increasingRest⟩ := pairwise_cons.mp increasing
    have isIt := within it mem_cons_self
    rw [map_cons, forwardRun, releaseRun]
    simp only [wrapped, wrap_inj isIt.1 isIt.2]
    split
    next here =>
      have further := @ih (start + 1) increasingRest fun other mem => by
        have later := least other mem
        have bounded := (within other (mem_cons_of_mem _ mem)).2
        omega
      rw [wrap_succ]
      simp only [further, map_cons]
      rfl
    · rfl

theorem forwardLess_map (within : ∀ other ∈ held, start ≤ other.1 ∧ other.1 < start + 4096)
    (inside : start ≤ bound ∧ bound < start + 4096) :
    forwardLess (wrap start) (wrap bound) (held.map wrapped) =
      some ((held.takeWhile (·.1 < bound)).map wrapped, (held.dropWhile (·.1 < bound)).map wrapped) := by
  induction held with
  | nil => rfl
  | cons it rest ih =>
    have isIt := within it mem_cons_self
    have itAhead := distance_wrap isIt.1 isIt.2
    have boundAhead := distance_wrap inside.1 inside.2
    have less : distance (wrap it.1) (wrap start) < distance (wrap bound) (wrap start) ↔ it.1 < bound := by omega
    rw [map_cons, forwardLess, takeWhile_cons, dropWhile_cons]
    simp only [wrapped, getDistance_wrap, bind_some, less, decide_eq_true_eq]
    split
    · rw [ih fun other mem => within other (mem_cons_of_mem _ mem)]
      rfl
    · rfl

/-- The map and `WinStartB` are a reorder buffer. -/
structure Represents (agreement : RecipientBlockAckAgreement (Int × Item)) (buffer : ReorderBuffer Item) : Prop where
  start : agreement.winStartB = wrap buffer.start
  held : agreement.bufferedMpdus = buffer.held.map wrapped

/-- What a step passes up is what a reorder buffer releases, and nothing else has changed. -/
structure PassesUp (agreement : RecipientBlockAckAgreement (Int × Item)) (release : Release Item)
    (out : PassedUp (Int × Item)) : Prop where
  items : out.1 = release.passed.map wrapped
  represents : out.2.Represents release.left
  scoreboard : out.2.scoreboard = agreement.scoreboard
  winSizeB : out.2.winSizeB = agreement.winSizeB

section

variable (rep : agreement.Represents buffer)
include rep

theorem noOldMpdus_eq (within : ∀ other ∈ buffer.held, buffer.start ≤ other.1 ∧ other.1 < buffer.start + 2048) :
    agreement.noOldMpdus = some () := by
  rw [noOldMpdus, rep.held, getLast?_map]
  cases isLast : buffer.held.getLast? with
  | none => rfl
  | some last =>
    have isIn := within last (mem_of_getLast? isLast)
    have ahead := @distance_wrap last.1 buffer.start isIn.1 (by omega)
    simp only [map_some, wrapped, rep.start, getDistance_wrap, bind_some]
    have new : distance (wrap last.1) (wrap buffer.start) < seqnoSpaceHalfSize := by
      rw [half_eq]
      omega
    rw [if_pos new]

theorem passUntilFirstLost_spec (increasing : buffer.held.Pairwise fun first second => first.1 < second.1)
    (within : ∀ other ∈ buffer.held, buffer.start ≤ other.1 ∧ other.1 < buffer.start + 2048) :
    ∃ out, agreement.passBufferedMpdusUntilFirstLost = some out ∧
      agreement.PassesUp (releaseRun buffer.start buffer.held) out := by
  rw [passBufferedMpdusUntilFirstLost, noOldMpdus_eq rep within, rep.start, rep.held,
    forwardRun_map increasing fun other mem => by
      have isIn := within other mem
      omega]
  exact ⟨_, rfl, rfl, ⟨rfl, rfl⟩, rfl, rfl⟩

theorem passTo_spec
    (increasing : buffer.held.Pairwise fun first second => first.1 < second.1)
    (within : ∀ other ∈ buffer.held, buffer.start ≤ other.1 ∧ other.1 < buffer.start + 2048)
    (inside : buffer.start ≤ bound ∧ bound < buffer.start + 4096) :
    ∃ out, agreement.passBufferedMpdusTo (wrap bound) = some out ∧
      agreement.PassesUp (releaseTo bound buffer.held) out := by
  have less := @forwardLess_map Item buffer.start bound buffer.held
    (fun other mem => by
      have isIn := within other mem
      omega) (by omega)
  have isLess : agreement.passBufferedMpdusWithSeqNumberLessThan (wrap bound) =
      some ((buffer.held.takeWhile (·.1 < bound)).map wrapped,
        { agreement with
          winStartB := wrap bound
          bufferedMpdus := (buffer.held.dropWhile (·.1 < bound)).map wrapped }) := by
    rw [passBufferedMpdusWithSeqNumberLessThan, noOldMpdus_eq rep within, rep.start, rep.held, less]
    rfl
  obtain ⟨run, isRun, passes⟩ := @passUntilFirstLost_spec Item
    { agreement with winStartB := wrap bound, bufferedMpdus := (buffer.held.dropWhile (·.1 < bound)).map wrapped }
    ⟨bound, buffer.held.dropWhile (·.1 < bound)⟩ ⟨rfl, rfl⟩ (increasing.sublist (dropWhile_sublist _))
    (fun other mem => by
      have atLeast := dropWhile_ge increasing other mem
      have isIn := within other ((dropWhile_sublist _).subset mem)
      have nearer : other.1 < bound + 2048 := by omega
      exact ⟨atLeast, nearer⟩)
  refine ⟨((buffer.held.takeWhile (·.1 < bound)).map wrapped ++ run.1, run.2), ?_, ?_, passes.represents,
    passes.scoreboard, passes.winSizeB⟩
  · rw [passBufferedMpdusTo, isLess, bind_some, isRun]
    rfl
  · simp only [passes.items, releaseTo, map_append]

/-- What an MPDU does to the numbers, if it is less than half of the space ahead. -/
def afterMpdu (size : Nat) (entry : Int × Item) (buffer : ReorderBuffer Item) : Release Item :=
  if entry.1 < buffer.start + 2048 then accept size entry buffer else ⟨[], buffer⟩

/-- What a block ack request does to the numbers. -/
def afterBar (number : Int) (buffer : ReorderBuffer Item) : Release Item :=
  if number < buffer.start + 2048 then moveTo number buffer else ⟨[], buffer⟩

theorem bufferMpdu_spec (ordered : buffer.Ordered agreement.winSizeB)
    (pos : 0 < agreement.winSizeB) (small : agreement.winSizeB ≤ 1024)
    (near : buffer.start - 2048 ≤ entry.1 ∧ entry.1 ≤ buffer.start + 2048) :
    ∃ out, agreement.bufferMpdu (wrapped entry) = some out ∧
      agreement.PassesUp (afterMpdu agreement.winSizeB entry buffer) out := by
  have unchanged : agreement.PassesUp ⟨[], buffer⟩ ([], agreement) := ⟨rfl, rep, rfl, rfl⟩
  have isStep : agreement.bufferMpdu (wrapped entry) =
      let distance := distance (wrap entry.1) (wrap buffer.start)
      let inserted := { agreement with
        bufferedMpdus := insert (wrap buffer.start) (wrapped entry) agreement.bufferedMpdus }
      if distance < agreement.winSizeB then inserted.passBufferedMpdusUntilFirstLost
      else if distance < seqnoSpaceHalfSize then
        inserted.passBufferedMpdusTo ((wrap entry.1 + 1 + seqnoSpaceSize - agreement.winSizeB) % seqnoSpaceSize)
      else some ([], agreement) := by
    rw [bufferMpdu, rep.start]
    simp only [wrapped, getDistance_wrap, bind_some]
  rw [isStep]
  by_cases early : entry.1 < buffer.start
  · have behind := distance_wrap_behind early (by omega)
    have outside : ¬ distance (wrap entry.1) (wrap buffer.start) < agreement.winSizeB := by omega
    have old : ¬ distance (wrap entry.1) (wrap buffer.start) < seqnoSpaceHalfSize := by
      rw [half_eq]
      omega
    have isNear : entry.1 < buffer.start + 2048 := by omega
    simp only [if_neg outside, if_neg old]
    rw [afterMpdu, if_pos isNear, accept, if_pos early]
    exact ⟨_, rfl, unchanged⟩
  have atLeast : buffer.start ≤ entry.1 := Int.le_of_not_gt early
  have ahead := distance_wrap atLeast (by omega)
  by_cases isNear : entry.1 < buffer.start + 2048
  case neg =>
    have outside : ¬ distance (wrap entry.1) (wrap buffer.start) < agreement.winSizeB := by omega
    have old : ¬ distance (wrap entry.1) (wrap buffer.start) < seqnoSpaceHalfSize := by
      rw [half_eq]
      omega
    simp only [if_neg outside, if_neg old]
    rw [afterMpdu, if_neg isNear]
    exact ⟨_, rfl, unchanged⟩
  have increasing := @hold_increasing Item buffer.held entry ordered.increasing
  have inserted : Represents
      { agreement with bufferedMpdus := insert (wrap buffer.start) (wrapped entry) agreement.bufferedMpdus }
      ⟨buffer.start, hold entry buffer.held⟩ := by
    refine ⟨rep.start, ?_⟩
    simp only [rep.held]
    apply insert_map
    · intro other mem
      have isIn := ordered.within other mem
      omega
    · omega
  have within : ∀ other ∈ hold entry buffer.held, buffer.start ≤ other.1 ∧ other.1 < buffer.start + 2048 := by
    intro other mem
    rcases mem_of_mem_hold mem with rfl | old
    · exact ⟨atLeast, isNear⟩
    · have isIn := ordered.within other old
      omega
  by_cases inside : entry.1 < buffer.start + agreement.winSizeB
  · have isInside : distance (wrap entry.1) (wrap buffer.start) < agreement.winSizeB := by omega
    simp only [if_pos isInside]
    rw [afterMpdu, if_pos isNear, accept, if_neg early, if_pos inside]
    obtain ⟨out, isOut, passes⟩ := passUntilFirstLost_spec inserted increasing within
    exact ⟨out, isOut, passes.items, passes.represents, passes.scoreboard, passes.winSizeB⟩
  · have outside : ¬ distance (wrap entry.1) (wrap buffer.start) < agreement.winSizeB := by omega
    have new : distance (wrap entry.1) (wrap buffer.start) < seqnoSpaceHalfSize := by
      rw [half_eq]
      omega
    have bound : (wrap entry.1 + 1 + seqnoSpaceSize - agreement.winSizeB) % seqnoSpaceSize =
        wrap (entry.1 - agreement.winSizeB + 1) := by
      rw [wrap, wrap, seqnoSpaceSize]
      omega
    simp only [if_neg outside, if_pos new, bound]
    rw [afterMpdu, if_pos isNear, accept, if_neg early, if_neg inside]
    have boundAhead : buffer.start ≤ entry.1 - agreement.winSizeB + 1 ∧
        entry.1 - agreement.winSizeB + 1 < buffer.start + 4096 := by
      omega
    obtain ⟨out, isOut, passes⟩ := passTo_spec inserted increasing within boundAhead
    exact ⟨out, isOut, passes.items, passes.represents, passes.scoreboard, passes.winSizeB⟩

theorem bufferBar_spec (ordered : buffer.Ordered agreement.winSizeB)
    (small : agreement.winSizeB ≤ 1024) (near : buffer.start - 2048 ≤ number ∧ number ≤ buffer.start + 2048) :
    ∃ out, agreement.bufferBar (wrap number) = some out ∧ agreement.PassesUp (afterBar number buffer) out := by
  have unchanged : agreement.PassesUp ⟨[], buffer⟩ ([], agreement) := ⟨rfl, rep, rfl, rfl⟩
  have within : ∀ other ∈ buffer.held, buffer.start ≤ other.1 ∧ other.1 < buffer.start + 2048 := by
    intro other mem
    have isIn := ordered.within other mem
    omega
  rw [bufferBar, rep.start, getDistance_wrap, bind_some]
  by_cases new : buffer.start < number ∧ number < buffer.start + 2048
  · have ahead := @distance_wrap number buffer.start (by omega) (by omega)
    have isNew : 0 < distance (wrap number) (wrap buffer.start) ∧
        distance (wrap number) (wrap buffer.start) < seqnoSpaceHalfSize := by
      rw [half_eq]
      omega
    rw [if_pos isNew, afterBar, if_pos new.2, moveTo, if_neg (Int.not_le_of_gt new.1)]
    have inside : number < buffer.start + 4096 := by omega
    exact passTo_spec rep ordered.increasing within ⟨Int.le_of_lt new.1, inside⟩
  · have isOld : ¬ (0 < distance (wrap number) (wrap buffer.start) ∧
        distance (wrap number) (wrap buffer.start) < seqnoSpaceHalfSize) := by
      rw [half_eq]
      by_cases atLeast : buffer.start ≤ number
      · have ahead := @distance_wrap number buffer.start atLeast (by omega)
        omega
      · have behind := @distance_wrap_behind number buffer.start (by omega) (by omega)
        omega
    have same : afterBar number buffer = ⟨[], buffer⟩ := by
      rw [afterBar]
      split
      · rw [moveTo, if_pos (by omega)]
      · rfl
    rw [if_neg isOld, same]
    exact ⟨_, rfl, unchanged⟩

end

inductive Call (Item : Type) where
  | mpdu (entry : Int × Item)
  | bar (number : Int)

/-- The number of the MPDU or of the request. -/
def Call.unwrapped : Call Item -> Int
  | .mpdu entry => entry.1
  | .bar number => number

def notify (agreement : RecipientBlockAckAgreement (Int × Item)) : Call Item -> Option (PassedUp (Int × Item))
  | .mpdu entry => agreement.notifyReceivedMpdu (wrapped entry)
  | .bar number => agreement.notifyReceivedBar (wrap number)

def after (size : Nat) (buffer : ReorderBuffer Item) : Call Item -> Release Item
  | .mpdu entry => afterMpdu size entry buffer
  | .bar number => afterBar number buffer

variable {call : Call Item} {size : Nat} {taken : List (Int × Item)} {release : Release Item}

/-- The buffer takes in the MPDU of the call, unless it is old or known, and releases. -/
structure Takes (size : Nat) (call : Call Item) (buffer : ReorderBuffer Item) (taken : List (Int × Item))
    (release : Release Item) : Prop where
  released : Released buffer.start taken release
  increasing : taken.Pairwise fun first second => first.1 < second.1
  atLeast : ∀ entry ∈ taken, buffer.start ≤ entry.1
  kept : ∀ entry ∈ buffer.held, entry ∈ taken
  origin : ∀ entry ∈ taken, entry ∈ buffer.held ∨ call = .mpdu entry
  new : ∀ entry, call = .mpdu entry -> buffer.start ≤ entry.1 -> entry.1 < buffer.start + 2048 ->
    (∀ other ∈ buffer.held, other.1 ≠ entry.1) -> entry ∈ taken
  ordered : release.left.Ordered size
  near : release.left.start ≤ buffer.start + 2048

section

variable (ordered : buffer.Ordered size)
include ordered

theorem takes_nothing
    (old : ∀ entry, call = .mpdu entry -> entry.1 < buffer.start ∨ buffer.start + 2048 ≤ entry.1) :
    Takes size call buffer buffer.held ⟨[], buffer⟩ where
  released := ⟨rfl, Int.le_refl _, fun _ mem => absurd mem not_mem_nil, fun entry mem => (ordered.within entry mem).1⟩
  increasing := ordered.increasing
  atLeast := fun entry mem => (ordered.within entry mem).1
  kept := fun _ mem => mem
  origin := fun _ mem => .inl mem
  new := fun entry isThis atLeast less _ => by
    have either := old entry isThis
    omega
  ordered := ordered
  near := by
    simp only
    omega

theorem takes_mpdu (pos : 0 < size) (small : size ≤ 1024) :
    ∃ taken, Takes size (.mpdu entry) buffer taken (afterMpdu size entry buffer) := by
  rw [afterMpdu]
  by_cases early : entry.1 < buffer.start
  · have unchanged : accept size entry buffer = ⟨[], buffer⟩ := if_pos early
    rw [unchanged, ite_self]
    refine ⟨_, takes_nothing ordered fun other isThis => ?_⟩
    obtain rfl := Call.mpdu.inj isThis
    exact .inl early
  by_cases far : entry.1 < buffer.start + 2048
  case neg =>
    rw [if_neg far]
    refine ⟨_, takes_nothing ordered fun other isThis => ?_⟩
    obtain rfl := Call.mpdu.inj isThis
    exact .inr (Int.le_of_not_gt far)
  rw [if_pos far]
  have atLeast : buffer.start ≤ entry.1 := Int.le_of_not_gt early
  have below : ∀ other ∈ hold entry buffer.held, other.1 < buffer.start + 2048 := by
    intro other mem
    rcases mem_of_mem_hold mem with rfl | old
    · exact far
    · have isIn := ordered.within other old
      omega
  refine ⟨hold entry buffer.held, released_accept ordered atLeast, hold_increasing ordered.increasing, ?_,
    fun other => mem_hold_of_mem, ?_, ?_, ordered_accept ordered, ?_⟩
  · intro other mem
    rcases mem_of_mem_hold mem with rfl | old
    · exact atLeast
    · exact (ordered.within other old).1
  · intro other mem
    rcases mem_of_mem_hold mem with rfl | old
    · exact .inr rfl
    · exact .inl old
  · intro other isThis _ _ isNew
    obtain rfl := Call.mpdu.inj isThis
    exact mem_hold_self isNew
  · rw [accept, if_neg early]
    split
    · exact releaseRun_le below (by omega)
    · exact releaseTo_le below (by omega)

theorem takes_bar (small : size ≤ 1024) :
    ∃ taken, Takes size (.bar number) buffer taken (afterBar number buffer) := by
  have notMpdu : ∀ entry : Int × Item, (Call.bar number : Call Item) ≠ .mpdu entry := fun _ isMpdu => nomatch isMpdu
  rw [afterBar]
  by_cases far : number < buffer.start + 2048
  case neg =>
    rw [if_neg far]
    exact ⟨_, takes_nothing ordered fun entry isThis => absurd isThis (notMpdu entry)⟩
  rw [if_pos far]
  refine ⟨buffer.held, released_moveTo ordered, ordered.increasing, fun entry mem => (ordered.within entry mem).1,
    fun _ mem => mem, fun _ mem => .inl mem, fun entry isThis => absurd isThis (notMpdu entry),
    ordered_moveTo ordered, ?_⟩
  rw [moveTo]
  split
  · simp only
    omega
  · apply releaseTo_le
    · intro entry mem
      have isIn := ordered.within entry mem
      omega
    · omega

theorem takes_after (pos : 0 < size) (small : size ≤ 1024) (call : Call Item) :
    ∃ taken, Takes size call buffer taken (after size buffer call) := by
  cases call with
  | mpdu entry => exact takes_mpdu ordered pos small
  | bar number => exact takes_bar ordered small

end

/-- The call is an MPDU with a sequence number. -/
def Call.HasMpdu (call : Call Item) (seq : Nat) : Prop :=
  ∃ entry, call = .mpdu entry ∧ wrap entry.1 = seq

theorem notify_spec (rep : agreement.Represents buffer) (ordered : buffer.Ordered agreement.winSizeB)
    (pos : 0 < agreement.winSizeB) (small : agreement.winSizeB ≤ 1024)
    (wellFormed : agreement.scoreboard.WellFormed) (sameSize : agreement.scoreboard.getWinSize = agreement.winSizeB)
    (near : buffer.start - 2048 ≤ call.unwrapped ∧ call.unwrapped ≤ buffer.start + 2048) :
    ∃ scoreboard out, agreement.notify call = some out ∧ Hears call.HasMpdu agreement.scoreboard scoreboard ∧
      PassesUp { agreement with scoreboard := scoreboard } (after agreement.winSizeB buffer call) out := by
  have smallBoard : agreement.scoreboard.getWinSize ≤ 1024 := sameSize.trans_le small
  cases call with
  | mpdu entry =>
    obtain ⟨next, isNext, heard⟩ := scoreMpdu_spec wellFormed smallBoard (wrap_lt entry.1)
    obtain ⟨out, isOut, passes⟩ := @bufferMpdu_spec Item entry { agreement with scoreboard := next } buffer
      ⟨rep.start, rep.held⟩ ordered pos small near
    refine ⟨next, out, ?_, ?_, passes⟩
    · rw [notify, notifyReceivedMpdu]
      exact bind_eq_some_iff.mpr ⟨next, isNext, isOut⟩
    · refine ⟨heard.wellFormed, heard.size, fun seq isNumber covers => ?_⟩
      rw [heard.marked seq isNumber covers]
      refine or_congr ⟨fun same => ⟨entry, rfl, same.symm⟩, ?_⟩ Iff.rfl
      rintro ⟨other, isThis, same⟩
      obtain rfl := Call.mpdu.inj isThis
      exact same.symm
  | bar number =>
    obtain ⟨next, isNext, heard⟩ := scoreBar_spec wellFormed smallBoard (wrap_lt number)
    obtain ⟨out, isOut, passes⟩ := @bufferBar_spec Item number { agreement with scoreboard := next } buffer
      ⟨rep.start, rep.held⟩ ordered small near
    refine ⟨next, out, ?_, ?_, passes⟩
    · rw [notify, notifyReceivedBar]
      exact bind_eq_some_iff.mpr ⟨next, isNext, isOut⟩
    · refine ⟨heard.wellFormed, heard.size, fun seq isNumber covers => ?_⟩
      rw [heard.marked seq isNumber covers]
      refine or_congr (iff_of_false id ?_) Iff.rfl
      rintro ⟨entry, isMpdu, -⟩
      cases isMpdu

end RecipientBlockAckAgreement

end Ns3.Wifi
