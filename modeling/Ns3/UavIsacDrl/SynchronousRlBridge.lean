import Ns3.Semantics.LineBuffer

/-!
# The synchronous RL bridge

`SynchronousRlBridge::ReceiveAction` takes one line from the controller and reads
three numbers out of it. The line is found whatever the chunks are; a number is
read with `std::stoul` into 64 bits and then narrowed to 32, and a number that is
not there reads as `UINT32_MAX`.
-/

namespace Ns3.UavIsacDrl.SynchronousRlBridge

open Ns3.Semantics List Option Connection

/-- The bytes of an ASCII text. -/
def bytes (text : String) : List UInt8 :=
  text.toList.map fun char => UInt8.ofNat char.toNat

def newline : UInt8 := 10

/-- The characters of `"0123456789"`. -/
def isDigit (byte : UInt8) : Bool :=
  48 ≤ byte && byte ≤ 57

/-- The decimal value of some digits. -/
def decimal (digits : List UInt8) : Nat :=
  digits.foldl (fun value digit => 10 * value + (digit.toNat - 48)) 0

/-- `std::string::find`, the first position of a needle. -/
def find (needle : List UInt8) : List UInt8 -> Option Nat
  | [] => if needle = [] then some 0 else none
  | byte :: rest =>
    if needle <+: byte :: rest then some 0 else (find needle rest).map (· + 1)

/-- `std::stoul` on digits, `none` where it throws: `std::invalid_argument` without
digits, `std::out_of_range` from 2^64 on. -/
def stoul (digits : List UInt8) : Option Nat :=
  if digits = [] then
    none
  else if decimal digits < UInt64.size then
    some (decimal digits)
  else
    none

/-- What `extractUnsigned` looks for. -/
def needleOf (key : String) : List UInt8 :=
  bytes "\"" ++ bytes key ++ bytes "\":"

def extractUnsigned (line : List UInt8) (key : String) (fallback : UInt32) : UInt32 :=
  let needle := needleOf key
  match find needle line with
  | none => fallback
  | some pos =>
    match stoul ((line.drop (pos + needle.length)).takeWhile isDigit) with
    | some value => UInt32.ofNat value
    | none => fallback

/-- `UINT32_MAX`. -/
def uint32Max : UInt32 := 4294967295

/-- The return value of `ReceiveAction`, and the value of `action` if it is set. -/
structure Received where
  accepted : Bool
  action : Option UInt32
  deriving DecidableEq

/-- The expected identity of an action. -/
structure Expected where
  episode : UInt32
  step : UInt32

/-- The part of `ReceiveAction` after its loop. -/
def readAction (expected : Expected) (line : List UInt8) : Received :=
  let episode := extractUnsigned line "episode_id" uint32Max
  let step := extractUnsigned line "step_id" uint32Max
  let action := extractUnsigned line "action" uint32Max
  if episode ≠ expected.episode || step ≠ expected.step || 25 ≤ action then
    ⟨false, some action⟩
  else
    ⟨true, some action⟩

/-- `ReceiveAction`, given the line its loop ends with, if any. -/
def receiveAction (expected : Expected) : Option (List UInt8) -> Received
  | none => ⟨false, none⟩
  | some line => readAction expected line

/-- The results of calls of `ReceiveAction`, one after the other. -/
def receiveActions (calls : List Expected) (connection : Connection UInt8) : List Received :=
  connection.serve newline receiveAction calls

/-- A line carries a number under a key: after the first place the key stands at,
there are digits, as many as there are, with this value. -/
def Carries (line : List UInt8) (key : String) (value : Nat) : Prop :=
  ∃ before digits after, line = before ++ needleOf key ++ digits ++ after ∧
    (∀ pos < before.length, ¬needleOf key <+: line.drop pos) ∧ digits ≠ [] ∧ (∀ digit ∈ digits, isDigit digit) ∧
        (∀ next ∈ after.head?, ¬isDigit next) ∧ decimal digits = value

theorem find_eq_some {needle line : List UInt8} {pos : Nat} :
    find needle line = some pos ↔
      (∃ before after, line = before ++ needle ++ after ∧ before.length = pos) ∧
        ∀ earlier < pos, ¬needle <+: line.drop earlier := by
  induction line generalizing pos with
  | nil =>
    by_cases empty : needle = []
    · subst empty
      simp only [find, if_pos]
      constructor
      · rintro ⟨rfl⟩
        exact ⟨⟨[], [], rfl, rfl⟩, fun earlier below => absurd below (Nat.not_lt_zero _)⟩
      · rintro ⟨⟨before, after, split, rfl⟩, -⟩
        simp_all
    · simp only [find, if_neg empty, reduceCtorEq, false_iff]
      rintro ⟨⟨before, after, split, -⟩, -⟩
      simp_all
  | cons byte rest ih =>
    rw [find]
    split
    · rename_i here
      constructor
      · rintro ⟨rfl⟩
        obtain ⟨after, split⟩ := here
        exact ⟨⟨[], after, by simpa using split.symm, rfl⟩,
          fun earlier below => absurd below (Nat.not_lt_zero _)⟩
      · rintro ⟨-, first⟩
        by_contra other
        have positive : 0 < pos := by
          apply Nat.pos_of_ne_zero
          rintro rfl
          exact other rfl
        exact first 0 positive (by simpa using here)
    · rename_i missing
      cases pos with
      | zero =>
        simp only [map_eq_some_iff, Nat.add_one_ne_zero, and_false, exists_false, false_iff]
        rintro ⟨⟨before, after, split, empty⟩, -⟩
        obtain rfl := eq_nil_of_length_eq_zero empty
        exact missing ⟨after, by simpa using split.symm⟩
      | succ pos =>
        simp only [map_eq_some_iff, Nat.add_right_cancel_iff, exists_eq_right]
        rw [ih]
        constructor
        · rintro ⟨⟨before, after, rfl, rfl⟩, first⟩
          refine ⟨⟨byte :: before, after, by simp, rfl⟩, fun earlier below => ?_⟩
          cases earlier with
          | zero => simpa using missing
          | succ earlier => exact first earlier (Nat.lt_of_succ_lt_succ below)
        · rintro ⟨⟨before, after, split, long⟩, first⟩
          cases before with
          | nil => cases long
          | cons head before =>
            simp only [cons_append, List.cons.injEq] at split
            exact ⟨⟨before, after, split.2, Nat.succ.inj long⟩,
              fun earlier below => first (earlier + 1) (Nat.succ_lt_succ below)⟩

/-- The number under a key, whatever its size. -/
def number? (line : List UInt8) (key : String) : Option Nat :=
  (find (needleOf key) line).bind fun pos =>
    let digits := (line.drop (pos + (needleOf key).length)).takeWhile isDigit
    if digits = [] then none else some (decimal digits)

variable {line : List UInt8} {key : String}

theorem carries_iff {value : Nat} : Carries line key value ↔ number? line key = some value := by
  constructor
  · rintro ⟨before, digits, after, split, first, nonempty, all, ended, rfl⟩
    have found : find (needleOf key) line = some before.length :=
      find_eq_some.mpr ⟨⟨before, digits ++ after, by simp [split], rfl⟩, first⟩
    have rest : line.drop (before.length + (needleOf key).length) = digits ++ after := by
      rw [split, append_assoc, ← length_append, drop_left]
    have stop : after.takeWhile isDigit = [] := by
      cases after with
      | nil => rfl
      | cons next later => rw [takeWhile_cons_of_neg (ended next rfl)]
    rw [number?, found, bind_some, rest, takeWhile_append_of_pos all, stop, append_nil, if_neg nonempty]
  · intro read
    obtain ⟨pos, found, read⟩ := bind_eq_some_iff.mp read
    obtain ⟨⟨before, rest, split, rfl⟩, first⟩ := find_eq_some.mp found
    have dropped : line.drop (before.length + (needleOf key).length) = rest := by
      rw [split, ← length_append, drop_left]
    rw [dropped] at read
    dsimp only at read
    split at read
    · cases read
    · rename_i nonempty
      refine ⟨before, rest.takeWhile isDigit, rest.dropWhile isDigit, ?_, first, nonempty,
        fun digit mem => mem_takeWhile_imp mem, ?_, some.inj read⟩
      · rw [split, append_assoc, append_assoc, append_assoc, takeWhile_append_dropWhile]
      · intro next head
        have stop := head?_dropWhile_not isDigit rest
        rw [mem_def.mp head] at stop
        simpa using stop

/-- What a number under a key is read as: itself modulo 2^32, and `UINT32_MAX` where
`std::stoul` has nothing to return. -/
def ReadsAs (line : List UInt8) (key : String) (word : UInt32) : Prop :=
  (∃ value < UInt64.size, Carries line key value ∧ UInt32.ofNat value = word) ∨
    (∀ value < UInt64.size, ¬Carries line key value) ∧ word = uint32Max

theorem extractUnsigned_eq (line : List UInt8) (key : String) (fallback : UInt32) :
    extractUnsigned line key fallback =
      match number? line key with
      | some value => if value < UInt64.size then UInt32.ofNat value else fallback
      | none => fallback := by
  simp only [extractUnsigned, number?]
  cases find (needleOf key) line with
  | none => rfl
  | some pos =>
    simp only [bind_some]
    generalize (line.drop (pos + (needleOf key).length)).takeWhile isDigit = digits
    by_cases empty : digits = []
    · simp [stoul, empty]
    · by_cases small : decimal digits < UInt64.size <;> simp [stoul, empty, small]

variable {word : UInt32}

theorem extractUnsigned_eq_iff : extractUnsigned line key uint32Max = word ↔ ReadsAs line key word := by
  rw [extractUnsigned_eq]
  unfold ReadsAs
  simp only [carries_iff]
  cases number? line key with
  | none => simp [eq_comm]
  | some value =>
    by_cases small : value < UInt64.size
    · simp only [some.injEq, if_pos small]
      constructor
      · exact fun same => .inl ⟨value, small, rfl, same⟩
      · rintro (⟨_, -, rfl, same⟩ | ⟨missing, -⟩)
        · exact same
        · exact absurd rfl (missing value small)
    · simp only [some.injEq, if_neg small]
      constructor
      · rintro rfl
        exact .inr ⟨fun other below same => small (same ▸ below), rfl⟩
      · rintro (⟨_, below, rfl, -⟩ | ⟨-, same⟩)
        · exact absurd below small
        · exact same.symm

/-- The three keys of an action. -/
def keys : List String :=
  ["episode_id", "step_id", "action"]

/-- The next line of some bytes, which ends in a newline. -/
def NextLine (stream line : List UInt8) : Prop :=
  ∃ rest, stream = line ++ newline :: rest ∧ newline ∉ line

theorem nextLine_iff {stream : List UInt8} :
    NextLine stream line ↔ (cut newline stream).map Prod.fst = some line := by
  simp [NextLine, ← cut_eq_some]

/-- An action is accepted exactly when the next line carries it for the expected
episode and step. -/
def ExactAction (connection : Connection UInt8) (expected : Expected) : Prop :=
  ∀ action, receiveActions [expected] connection = [⟨true, some action⟩] ↔ ∃ line, NextLine connection.stream line ∧
      Carries line "episode_id" expected.episode.toNat ∧
        Carries line "step_id" expected.step.toNat ∧ Carries line "action" action.toNat ∧ action < 25

/-- If the three numbers of a line read as an action for the expected episode and
step, then all three are there and below 2^32. -/
def Plain (stream : List UInt8) (expected : Expected) : Prop :=
  ∀ line, NextLine stream line -> ReadsAs line "episode_id" expected.episode ->
    ReadsAs line "step_id" expected.step -> ∀ action < 25, ReadsAs line "action" action ->
      ∀ key ∈ keys, ∃ value < UInt32.size, Carries line key value

theorem Carries.unique {left right : Nat} (first : Carries line key left)
    (second : Carries line key right) : left = right := by
  rw [carries_iff] at first second
  exact some.inj (first.symm.trans second)

theorem Carries.readsAs (carried : Carries line key word.toNat) : ReadsAs line key word :=
  .inl ⟨word.toNat, Nat.lt_trans word.toNat_lt (by decide), carried, UInt32.ofNat_toNat⟩

theorem ReadsAs.carries {value : Nat} (read : ReadsAs line key word) (small : value < UInt32.size)
    (carried : Carries line key value) : Carries line key word.toNat := by
  have exact : word = UInt32.ofNat value := by
    rcases read with ⟨other, -, otherCarried, rfl⟩ | ⟨missing, -⟩
    · rw [otherCarried.unique carried]
    · exact absurd carried (missing value (Nat.lt_trans small (by decide)))
  rwa [exact, UInt32.toNat_ofNat_of_lt' small]

/-- What one call accepts, in terms of what the numbers are read as. -/
theorem receiveActions_accepts_iff {expected : Expected} {connection : Connection UInt8} {action : UInt32} :
    receiveActions [expected] connection = [⟨true, some action⟩] ↔
      ∃ line, NextLine connection.stream line ∧ ReadsAs line "episode_id" expected.episode ∧
        ReadsAs line "step_id" expected.step ∧ ReadsAs line "action" action ∧ action < 25 := by
  have taken := (takeLine_eq newline connection.buffer connection.chunks).1
  simp only [receiveActions, serve, List.cons.injEq, and_true, nextLine_iff]
  rw [taken]
  simp only [← extractUnsigned_eq_iff]
  change receiveAction expected ((cut newline connection.stream).map Prod.fst) = _ ↔ _
  cases (cut newline connection.stream).map Prod.fst with
  | none => simp [receiveAction]
  | some line =>
    simp only [receiveAction, readAction, some.injEq, exists_eq_left']
    split
    · rename_i rejected
      simp only [Received.mk.injEq, Bool.false_eq_true, false_and, false_iff]
      rintro ⟨episode, step, rfl, small⟩
      simp [episode, step, UInt32.not_le.mpr small] at rejected
    · rename_i accepted
      simp only [Bool.or_eq_true, decide_eq_true_eq, not_or, not_not, ne_eq, UInt32.not_le] at accepted
      obtain ⟨⟨episode, step⟩, small⟩ := accepted
      constructor
      · intro same
        obtain rfl := some.inj (Received.mk.inj same).2
        exact ⟨episode, step, rfl, small⟩
      · rintro ⟨-, -, rfl, -⟩
        rfl

theorem Carries.small (carried : Carries line key word.toNat) : ∃ value < UInt32.size, Carries line key value :=
  ⟨word.toNat, word.toNat_lt, carried⟩

/-- The results are a function of the bytes, and a call is exact exactly when no line
is read as an action it does not carry. -/
theorem receiveAction_exact_iff (connection : Connection UInt8) (expected : Expected) :
    (∀ calls other, other.stream = connection.stream -> receiveActions calls other = receiveActions calls connection) ∧
      (ExactAction connection expected ↔ Plain connection.stream expected) := by
  refine ⟨fun calls other => Connection.serve_congr newline receiveAction calls, ⟨?_, ?_⟩⟩
  · intro exactly line next episode step action small read
    have accepted := receiveActions_accepts_iff.mpr ⟨line, next, episode, step, read, small⟩
    obtain ⟨other, nextOther, carriedEpisode, carriedStep, carriedAction, -⟩ :=
      (exactly action).mp accepted
    obtain rfl : line = other := by
      rw [nextLine_iff] at next nextOther
      exact some.inj (next.symm.trans nextOther)
    simpa [keys] using ⟨carriedEpisode.small, carriedStep.small, carriedAction.small⟩
  · intro plain action
    rw [receiveActions_accepts_iff]
    constructor
    · rintro ⟨line, next, episode, step, read, small⟩
      have there := plain line next episode step action small read
      obtain ⟨_, smallEpisode, carriedEpisode⟩ := there "episode_id" (by simp [keys])
      obtain ⟨_, smallStep, carriedStep⟩ := there "step_id" (by simp [keys])
      obtain ⟨_, smallAction, carriedAction⟩ := there "action" (by simp [keys])
      exact ⟨line, next, episode.carries smallEpisode carriedEpisode,
        step.carries smallStep carriedStep, read.carries smallAction carriedAction, small⟩
    · rintro ⟨line, next, episode, step, read, small⟩
      exact ⟨line, next, episode.readsAs, step.readsAs, read.readsAs, small⟩

/-- The line of an action that is 3 only modulo 2^32. -/
def residueLine : List UInt8 :=
  bytes "\x7b\"episode_id\":1,\"step_id\":0,\"action\":4294967299\x7d"

theorem residue_same_results : receiveActions [⟨1, 0⟩] ⟨[], [residueLine, [newline]]⟩ =
    receiveActions [⟨1, 0⟩] ⟨residueLine, [[newline]]⟩ :=
  (receiveAction_exact_iff ⟨residueLine, [[newline]]⟩ ⟨1, 0⟩).1 [⟨1, 0⟩] ⟨[], [residueLine, [newline]]⟩ rfl

/-- An action of 2^32 or more is accepted as its residue. -/
theorem residue_accepted : ¬ExactAction ⟨[], [residueLine, [newline]]⟩ ⟨1, 0⟩ := by
  intro exactly
  obtain ⟨line, next, -, -, carried, -⟩ := (exactly 3).mp (by decide +kernel)
  have same : line = residueLine := by
    have found := nextLine_iff.mp next
    have cutHere : (Connection.cut newline (Connection.mk [] [residueLine, [newline]]).stream).map
        Prod.fst = some residueLine := by decide +kernel
    exact some.inj (found.symm.trans cutHere)
  rw [same, carries_iff] at carried
  have read : number? residueLine "action" = some 4294967299 := by decide +kernel
  rw [read] at carried
  cases carried

end Ns3.UavIsacDrl.SynchronousRlBridge
