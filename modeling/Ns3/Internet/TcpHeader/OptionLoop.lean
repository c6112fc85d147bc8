import Ns3.Internet.TcpHeader.Header

/-!
# How often the option loop is run

The loop compares the size that an option returns with the size that the option has, and goes on if
they are the same. An option of unknown kind whose length octet is 0 has the size 0 and returns 0:
the loop comes to it again and again.
-/

namespace Ns3.Internet.TcpHeader

open Network.BufferIterator TcpOption List Option

/-- What the loop works on: `optionLen`, the iterator, and what was read so far. -/
structure OptionLoop where
  optionLen : Nat
  i : List UInt8
  options : List TcpOption := []
  optionsLen : Nat := 0
  deriving DecidableEq

inductive LoopState where
  | running (loop : OptionLoop)
  /-- The guard fails, or a `break`. -/
  | left (loop : OptionLoop)
  /-- `NS_ABORT_IF`, or a read behind the last octet. -/
  | aborted
  deriving DecidableEq

namespace OptionLoop

variable (loop : OptionLoop)

/-- The option is appended. An END discards what is left. -/
def accept (optionSize : Nat) (op : TcpOption) (i : List UInt8) : LoopState :=
  let accepted : OptionLoop :=
    { optionLen := loop.optionLen - optionSize
      i := i
      options := loop.options ++ [op]
      optionsLen := loop.optionsLen + optionSize }
  if op.getKind = 0 then
    match next accepted.optionLen i with
    | some i => .running { accepted with
        optionLen := 0, i := i, optionsLen := accepted.optionsLen + accepted.optionLen }
    | none => .aborted
  else .running accepted

/-- The body of the loop. -/
def body : LoopState :=
  match loop.i.head?.bind fun kind => TcpOption.deserialize kind loop.i with
  | none => .aborted
  | some (optionSize, op) =>
    if optionSize ≠ op.getSerializedSize then .left loop
    else if loop.optionLen ≥ optionSize then
      match next optionSize loop.i with
      | some i => loop.accept optionSize op i
      | none => .aborted
    else .left loop

/-- At most so many iterations. -/
def iterations : Nat -> OptionLoop -> LoopState
  | 0, loop => if loop.optionLen = 0 then .left loop else .running loop
  | count + 1, loop =>
    if loop.optionLen = 0 then .left loop
    else
      match loop.body with
      | .running later => iterations count later
      | state => state

end OptionLoop

/-- The data offset, in words. -/
def dataOffset (bytes : List UInt8) : Nat :=
  (bytes.getD 12 0).toNat / 16

/-- The option area: none is looked at for an illegal offset. -/
def optionArea (bytes : List UInt8) : Nat :=
  (dataOffset bytes - 5) * 4

/-- The loop, as `Deserialize` comes to it. -/
def optionLoop (bytes : List UInt8) : OptionLoop where
  optionLen := optionArea bytes
  i := bytes.drop 20

/-! ## Options by their first octets -/

/-- The octets of an option with a length octet; none if the length is malformed. -/
def octetsOf (kind size : UInt8) : Nat :=
  if kind = 2 then if size = 4 then 4 else 0
  else if kind = 3 then if size = 3 then 3 else 0
  else if kind = 4 then if size = 2 then 2 else 0
  else if kind = 5 then 2 + (size.toNat - 2) / 8 * 8
  else if kind = 8 then if size = 10 then 10 else 0
  else if 2 ≤ size.toNat ∧ size.toNat ≤ 40 then size.toNat else 0

/-- An option of unknown kind whose length octet is 0. -/
def EmptyOption (i : List UInt8) : Prop :=
  ∃ kind rest, i = kind :: 0 :: rest ∧ isKindKnown kind = false

/-- An option that is not all there, or a maximum segment size with a length other than 4. -/
def Aborting : List UInt8 -> Prop
  | [] => True
  | [kind] => kind ≠ 0 ∧ kind ≠ 1
  | kind :: size :: rest =>
    kind ≠ 0 ∧ kind ≠ 1 ∧ (kind = 2 ∧ size ≠ 4 ∨ (kind :: size :: rest).length < octetsOf kind size)

/-- The octets that a complete option takes. -/
def Whole : List UInt8 -> Nat -> Prop
  | [], _ => False
  | [kind], size => (kind = 0 ∨ kind = 1) ∧ size = 1
  | kind :: length :: rest, size =>
    (kind = 0 ∨ kind = 1) ∧ size = 1 ∨ kind ≠ 0 ∧ kind ≠ 1 ∧ 0 < size ∧ size = octetsOf kind length ∧
      size ≤ (kind :: length :: rest).length

/-- Behind complete options, none of which is an END, there are octets with a property, still within
the option area. -/
inductive ComesTo (property : List UInt8 -> Prop) : Nat -> List UInt8 -> Prop where
  | here {left : Nat} {i : List UInt8} (positive : 0 < left) (found : property i) : ComesTo property left i
  | behind {left size : Nat} {i : List UInt8} (whole : Whole i size) (notEnd : i.head? ≠ some 0) (fits : size ≤ left)
      (further : ComesTo property (left - size) (i.drop size)) : ComesTo property left i

variable {i rest : List UInt8} {kind size : UInt8}

/-! ## Reading where there are octets enough -/

theorem readNtohU16_of_le (enough : 2 ≤ i.length) : ∃ word, readNtohU16 i = some (word, i.drop 2) := by
  match i with
  | _ :: _ :: _ => exact ⟨_, rfl⟩

theorem readNtohU16_of_lt (short : i.length < 2) : readNtohU16 i = none := by
  match i with
  | [] | [_] => rfl

theorem readNtohU32_of_le (enough : 4 ≤ i.length) : ∃ word, readNtohU32 i = some (word, i.drop 4) := by
  match i with
  | _ :: _ :: _ :: _ :: _ => exact ⟨_, rfl⟩

theorem readNtohU32_of_lt (short : i.length < 4) : readNtohU32 i = none := by
  match i with
  | [] | [_] | [_, _] | [_, _, _] => rfl

theorem deserializeBlocks_of_le {sackCount : Nat} (enough : sackCount * 8 ≤ i.length) :
    ∃ blocks, deserializeBlocks sackCount i = some blocks ∧ blocks.length = sackCount := by
  induction sackCount generalizing i with
  | zero => exact ⟨[], rfl, rfl⟩
  | succ sackCount ih =>
    obtain ⟨leftEdge, isLeft⟩ := readNtohU32_of_le (i := i) (by omega)
    obtain ⟨rightEdge, isRight⟩ := readNtohU32_of_le (i := i.drop 4) (by rw [length_drop]; omega)
    obtain ⟨blocks, isBlocks, count⟩ := ih (i := (i.drop 4).drop 4) (by
      rw [length_drop, length_drop]
      omega)
    refine ⟨(leftEdge, rightEdge) :: blocks, ?_, congrArg Nat.succ count⟩
    rw [deserializeBlocks, isLeft, bind_some, isRight, bind_some, isBlocks]
    rfl

theorem deserializeBlocks_of_lt {sackCount : Nat} (short : i.length < sackCount * 8) :
    deserializeBlocks sackCount i = none := by
  induction sackCount generalizing i with
  | zero => exact absurd short (Nat.not_lt_zero _)
  | succ sackCount ih =>
    rw [deserializeBlocks]
    by_cases left : i.length < 4
    · rw [readNtohU32_of_lt left]
      rfl
    obtain ⟨leftEdge, isLeft⟩ := readNtohU32_of_le (Nat.not_lt.mp left)
    rw [isLeft, bind_some]
    by_cases right : (i.drop 4).length < 4
    · rw [readNtohU32_of_lt right]
      rfl
    obtain ⟨rightEdge, isRight⟩ := readNtohU32_of_le (Nat.not_lt.mp right)
    rw [isRight, bind_some, ih]
    · rfl
    · rw [length_drop] at right ⊢
      rw [length_drop]
      omega

/-! ## What an option returns -/

/-- The kinds, each with what is read of its length octet and behind it. -/
theorem deserialize_cases (not0 : kind ≠ 0) (not1 : kind ≠ 1) :
    TcpOption.deserialize kind (kind :: size :: rest) =
      if kind = 2 then if size ≠ 4 then none else (readNtohU16 rest).map fun read => (4, mss read.1)
      else if kind = 3 then
        if size ≠ 3 then some (0, winScale 0) else (readU8 rest).map fun scale => (3, winScale scale.1)
      else if kind = 4 then if size ≠ 2 then some (0, sackPermitted) else some (2, sackPermitted)
      else if kind = 5 then (deserializeBlocks ((size.toNat - 2) / 8) rest).map fun blocks =>
        (2 + blocks.length * 8, sack blocks)
      else if kind = 8 then
        if size ≠ 10 then some (0, ts 0 0)
        else (readNtohU32 rest).bind fun timestamp =>
          (readNtohU32 timestamp.2).map fun echo => (10, ts timestamp.1 echo.1)
      else if size.toNat < 2 ∨ size.toNat > 40 then some (0, unknown kind size.toNat [])
      else (readBytes (size.toNat - 2) rest).map fun content => (size.toNat, unknown kind size.toNat content.1) := by
  rw [TcpOption.deserialize, if_neg not0, if_neg not1]
  by_cases is2 : kind = 2
  · subst is2
    rfl
  rw [if_neg is2, if_neg is2]
  by_cases is3 : kind = 3
  · subst is3
    change (if size ≠ 3 then some (0, winScale 0) else ((readU8 rest).map fun scale => winScale scale.1).map
      fun option => (option.getSerializedSize, option)) = _
    rw [Option.map_map]
    rfl
  rw [if_neg is3, if_neg is3]
  by_cases is4 : kind = 4
  · subst is4
    rfl
  rw [if_neg is4, if_neg is4]
  by_cases is5 : kind = 5
  · subst is5
    rfl
  rw [if_neg is5, if_neg is5]
  by_cases is8 : kind = 8
  · subst is8
    change (if size ≠ 10 then some (0, ts 0 0) else ((readNtohU32 rest).bind fun timestamp =>
      (readNtohU32 timestamp.2).map fun echo => ts timestamp.1 echo.1).map
        fun option => (option.getSerializedSize, option)) = _
    simp only [Option.map_bind, Function.comp_def, Option.map_map]
    rfl
  rw [if_neg is8, if_neg is8]
  rfl

/-- What is read of a well-formed option of so many octets, of which some are there. -/
structure ReadsAll (kind : UInt8) (octets available : Nat) (read : Option Deserialized) : Prop where
  positive : 0 < octets
  short : available < octets -> read = none
  whole : octets ≤ available -> ∃ op, read = some (octets, op) ∧ op.getSerializedSize = octets ∧ op.getKind = kind

/-- What is read of a malformed option: the size that is returned is not that of the option, unless
that is 0 as well. -/
def ReadsNone (kind size : UInt8) (read : Option Deserialized) : Prop :=
  ∃ op, read = some (0, op) ∧ (op.getSerializedSize = 0 -> size = 0 ∧ isKindKnown kind = false)

theorem deserialize_octets (not0 : kind ≠ 0) (not1 : kind ≠ 1) :
    (kind = 2 ∧ size ≠ 4) ∧ TcpOption.deserialize kind (kind :: size :: rest) = none ∨
      ¬(kind = 2 ∧ size ≠ 4) ∧
        (ReadsAll kind (octetsOf kind size) (rest.length + 2) (TcpOption.deserialize kind (kind :: size :: rest)) ∨
          octetsOf kind size = 0 ∧ ReadsNone kind size (TcpOption.deserialize kind (kind :: size :: rest))) := by
  rw [deserialize_cases not0 not1, octetsOf]
  by_cases is2 : kind = 2
  · rw [if_pos is2, if_pos is2]
    by_cases right : size = 4
    · rw [if_pos right, if_neg (not_not_intro right)]
      refine .inr ⟨fun wrong => wrong.2 right, .inl ⟨by decide, fun short => ?_, fun enough => ?_⟩⟩
      · rw [readNtohU16_of_lt (by omega), map_none]
      · obtain ⟨value, isValue⟩ := readNtohU16_of_le (i := rest) (by omega)
        rw [isValue]
        exact ⟨_, rfl, rfl, is2.symm⟩
    · exact .inl ⟨⟨is2, right⟩, if_pos right⟩
  refine .inr ⟨fun wrong => is2 wrong.1, ?_⟩
  rw [if_neg is2, if_neg is2]
  by_cases is3 : kind = 3
  · rw [if_pos is3, if_pos is3]
    by_cases right : size = 3
    · rw [if_pos right, if_neg (not_not_intro right)]
      refine .inl ⟨by decide, fun short => ?_, fun enough => ?_⟩
      · rw [eq_nil_of_length_eq_zero (by omega : rest.length = 0)]
        rfl
      · obtain ⟨scale, others, rfl⟩ := exists_cons_of_length_pos (l := rest) (by omega)
        exact ⟨winScale scale, rfl, rfl, is3.symm⟩
    · rw [if_neg right, if_pos right]
      exact .inr ⟨rfl, _, rfl, fun same => by cases same⟩
  rw [if_neg is3, if_neg is3]
  by_cases is4 : kind = 4
  · rw [if_pos is4, if_pos is4]
    by_cases right : size = 2
    · rw [if_pos right, if_neg (not_not_intro right)]
      exact .inl ⟨by decide, fun short => by omega, fun _ => ⟨sackPermitted, rfl, rfl, is4.symm⟩⟩
    · rw [if_neg right, if_pos right]
      exact .inr ⟨rfl, _, rfl, fun same => by cases same⟩
  rw [if_neg is4, if_neg is4]
  by_cases is5 : kind = 5
  · rw [if_pos is5, if_pos is5]
    refine .inl ⟨by omega, fun short => ?_, fun enough => ?_⟩
    · rw [deserializeBlocks_of_lt (by omega), map_none]
    · have inside : (size.toNat - 2) / 8 * 8 ≤ rest.length := by omega
      obtain ⟨blocks, isBlocks, sackCount⟩ := deserializeBlocks_of_le inside
      rw [isBlocks, map_some, sackCount]
      refine ⟨sack blocks, rfl, ?_, is5.symm⟩
      rw [TcpOption.getSerializedSize, sackCount]
  rw [if_neg is5, if_neg is5]
  by_cases is8 : kind = 8
  · rw [if_pos is8, if_pos is8]
    by_cases right : size = 10
    · rw [if_pos right, if_neg (not_not_intro right)]
      refine .inl ⟨by decide, fun short => ?_, fun enough => ?_⟩
      · by_cases left : rest.length < 4
        · rw [readNtohU32_of_lt left, bind_none]
        · obtain ⟨timestamp, isTimestamp⟩ := readNtohU32_of_le (Nat.not_lt.mp left)
          rw [isTimestamp, bind_some, readNtohU32_of_lt, map_none]
          rw [length_drop]
          omega
      · obtain ⟨timestamp, isTimestamp⟩ := readNtohU32_of_le (i := rest) (by omega)
        obtain ⟨echo, isEcho⟩ := readNtohU32_of_le (i := rest.drop 4) (by rw [length_drop]; omega)
        rw [isTimestamp, bind_some, isEcho]
        exact ⟨ts timestamp echo, rfl, rfl, is8.symm⟩
    · rw [if_neg right, if_pos right]
      exact .inr ⟨rfl, _, rfl, fun same => by cases same⟩
  rw [if_neg is8, if_neg is8]
  by_cases right : 2 ≤ size.toNat ∧ size.toNat ≤ 40
  · rw [if_pos right, if_neg (by omega)]
    refine .inl ⟨by omega, fun short => ?_, fun enough => ?_⟩
    · rw [readBytes, if_neg (by omega), map_none]
    · rw [readBytes, if_pos (by omega), map_some]
      exact ⟨_, rfl, rfl, rfl⟩
  · rw [if_neg right, if_pos (by omega)]
    refine .inr ⟨rfl, _, rfl, fun same => ⟨UInt8.toNat_inj.mp same, ?_⟩⟩
    simp [isKindKnown, not0, not1, is2, is3, is4, is5, is8]

theorem deserialize_aborting (aborting : Aborting i) :
    (i.head?.bind fun kind => TcpOption.deserialize kind i) = none := by
  match i with
  | [] => rfl
  | [kind] =>
    obtain ⟨not0, not1⟩ := aborting
    rw [head?_cons, bind_some, TcpOption.deserialize, if_neg not0, if_neg not1]
    repeat
      split
      · next is => subst is; rfl
    rfl
  | kind :: size :: rest =>
    obtain ⟨not0, not1, aborting⟩ := aborting
    obtain ⟨-, isNone⟩ | ⟨right, reads | ⟨none, -⟩⟩ := @deserialize_octets rest kind size not0 not1
    · exact isNone
    · exact reads.short (aborting.resolve_left right)
    · have short := aborting.resolve_left right
      omega

/-- What a complete option returns is its size. -/
theorem deserialize_whole {count : Nat} (whole : Whole i count) :
    ∃ op, (i.head?.bind fun kind => TcpOption.deserialize kind i) = some (count, op) ∧ op.getSerializedSize = count ∧
      i.head? = some op.getKind := by
  have single : ∀ kind rest, kind = 0 ∨ kind = 1 ->
      ∃ op, TcpOption.deserialize kind (kind :: rest) = some (1, op) ∧ op.getSerializedSize = 1 ∧
        op.getKind = kind := by
    rintro kind rest (rfl | rfl)
    · exact ⟨endOfList, rfl, rfl, rfl⟩
    · exact ⟨nop, rfl, rfl, rfl⟩
  match i with
  | [] => exact whole.elim
  | [kind] =>
    obtain ⟨isKind, rfl⟩ := whole
    obtain ⟨op, isRead, isSize, isOp⟩ := single kind [] isKind
    exact ⟨op, isRead, isSize, congrArg some isOp.symm⟩
  | kind :: size :: rest =>
    obtain ⟨isKind, rfl⟩ | ⟨not0, not1, positive, rfl, enough⟩ := whole
    · obtain ⟨op, isRead, isSize, isOp⟩ := single kind (size :: rest) isKind
      exact ⟨op, isRead, isSize, congrArg some isOp.symm⟩
    · obtain ⟨⟨rfl, wrong⟩, -⟩ | ⟨-, reads | ⟨none, -⟩⟩ := @deserialize_octets rest kind size not0 not1
      · exact absurd (if_neg wrong) positive.ne'
      · obtain ⟨op, isRead, isSize, isOp⟩ := reads.whole enough
        exact ⟨op, isRead, isSize, congrArg some isOp.symm⟩
      · exact absurd none positive.ne'

theorem deserialize_empty (empty : EmptyOption i) :
    ∃ op, (i.head?.bind fun kind => TcpOption.deserialize kind i) = some (0, op) ∧
      op.getSerializedSize = 0 ∧ op.getKind ≠ 0 := by
  obtain ⟨kind, rest, rfl, isUnknown⟩ := empty
  simp only [isKindKnown, decide_eq_false_iff_not, not_or] at isUnknown
  obtain ⟨not0, not1, not2, not3, not4, not5, not8⟩ := isUnknown
  refine ⟨.unknown kind 0 [], ?_, rfl, not0⟩
  rw [head?_cons, bind_some, TcpOption.deserialize, if_neg not0, if_neg not1, if_neg not2, if_neg not3,
    if_neg not4, if_neg not5, if_neg not8]
  rfl

theorem deserialize_malformed (notEmpty : ¬EmptyOption i) (notAborting : ¬Aborting i)
    (notWhole : ∀ count, ¬Whole i count) :
    ∃ read, (i.head?.bind fun kind => TcpOption.deserialize kind i) = some read ∧
      read.1 ≠ read.2.getSerializedSize := by
  match i with
  | [] => exact absurd trivial notAborting
  | [kind] =>
    exfalso
    by_cases isKind : kind = 0 ∨ kind = 1
    · exact notWhole 1 ⟨isKind, rfl⟩
    · exact notAborting (not_or.mp isKind)
  | kind :: size :: rest =>
    have notKind : ¬(kind = 0 ∨ kind = 1) := fun isKind => notWhole 1 (.inl ⟨isKind, rfl⟩)
    obtain ⟨not0, not1⟩ := not_or.mp notKind
    have enough : octetsOf kind size ≤ (kind :: size :: rest).length :=
      Nat.le_of_not_lt fun short => notAborting ⟨not0, not1, .inr short⟩
    obtain ⟨wrong, -⟩ | ⟨-, reads | ⟨-, op, isRead, isZero⟩⟩ := @deserialize_octets rest kind size not0 not1
    · exact absurd ⟨not0, not1, .inl wrong⟩ notAborting
    · exact absurd (.inr ⟨not0, not1, reads.positive, rfl, enough⟩) (notWhole _)
    · refine ⟨_, isRead, fun same => notEmpty ?_⟩
      obtain ⟨rfl, isUnknown⟩ := isZero same.symm
      exact ⟨kind, rest, rfl, isUnknown⟩

theorem Whole.bounds {count : Nat} (whole : Whole i count) : 0 < count ∧ count ≤ i.length := by
  match i with
  | [] => exact whole.elim
  | [_] =>
    obtain ⟨-, rfl⟩ := whole
    exact ⟨Nat.one_pos, Nat.le_refl 1⟩
  | _ :: _ :: _ =>
    obtain ⟨-, rfl⟩ | ⟨-, -, positive, -, enough⟩ := whole
    · exact ⟨Nat.one_pos, Nat.succ_le_succ (Nat.zero_le _)⟩
    · exact ⟨positive, enough⟩

theorem whole_of_end (isEnd : i.head? = some 0) : Whole i 1 := by
  match i with
  | [_] => exact ⟨.inl (some.inj isEnd), rfl⟩
  | _ :: _ :: _ => exact .inl ⟨.inl (some.inj isEnd), rfl⟩

theorem Whole.unique {count other : Nat} (whole : Whole i count) (also : Whole i other) : count = other := by
  obtain ⟨op, isRead, -, -⟩ := deserialize_whole whole
  obtain ⟨op', isRead', -, -⟩ := deserialize_whole also
  exact congrArg Prod.fst (some.inj (isRead.symm.trans isRead'))

theorem Whole.not_aborting {count : Nat} (whole : Whole i count) : ¬Aborting i := by
  intro aborting
  obtain ⟨op, isRead, -, -⟩ := deserialize_whole whole
  cases isRead.symm.trans (deserialize_aborting aborting)

theorem Whole.not_empty {count : Nat} (whole : Whole i count) : ¬EmptyOption i := by
  intro empty
  obtain ⟨op, isRead, -, -⟩ := deserialize_whole whole
  obtain ⟨op', isEmpty, -, -⟩ := deserialize_empty empty
  have none := congrArg Prod.fst (some.inj (isRead.symm.trans isEmpty))
  exact Nat.ne_of_gt whole.bounds.1 none

/-- Behind a complete option that is no END the loop comes to what it comes to from there on. -/
theorem comesTo_behind_iff {property : List UInt8 -> Prop} {left count : Nat} (whole : Whole i count)
    (notHere : ¬property i) (notEnd : i.head? ≠ some 0) (fits : count ≤ left) :
    ComesTo property left i ↔ ComesTo property (left - count) (i.drop count) := by
  constructor
  · intro comes
    cases comes with
    | here _ found => exact absurd found notHere
    | behind other _ _ further =>
      rw [whole.unique other]
      exact further
  · exact ComesTo.behind whole notEnd fits

theorem ComesTo.positive {property : List UInt8 -> Prop} {left : Nat} (comes : ComesTo property left i) : 0 < left := by
  induction comes with
  | here positive _ => exact positive
  | behind _ _ _ _ ih => omega

/-! ## The body -/

namespace OptionLoop

variable {loop : OptionLoop} {count rounds : Nat}

theorem body_empty (empty : EmptyOption loop.i) :
    ∃ op, loop.body = .running { loop with options := loop.options ++ [op] } := by
  obtain ⟨op, isRead, isSize, notEnd⟩ := deserialize_empty empty
  have stays : Network.BufferIterator.next 0 loop.i = some loop.i := if_pos (Nat.zero_le _)
  refine ⟨op, ?_⟩
  simp [body, isRead, isSize, stays, accept, notEnd]

theorem body_aborting (aborting : Aborting loop.i) : loop.body = .aborted := by
  rw [body, deserialize_aborting aborting]

theorem next_of_le {delta : Nat} (enough : delta ≤ i.length) :
    Network.BufferIterator.next delta i = some (i.drop delta) :=
  if_pos enough

theorem body_whole (whole : Whole loop.i count) (notEnd : loop.i.head? ≠ some 0) (fits : count ≤ loop.optionLen) :
    ∃ op, loop.body = .running
      { optionLen := loop.optionLen - count
        i := loop.i.drop count
        options := loop.options ++ [op]
        optionsLen := loop.optionsLen + count } := by
  obtain ⟨op, isRead, isSize, isKind⟩ := deserialize_whole whole
  have notZero : op.getKind ≠ 0 := by
    intro zero
    rw [isKind, zero] at notEnd
    exact notEnd rfl
  refine ⟨op, ?_⟩
  simp [body, isRead, isSize, fits, next_of_le whole.bounds.2, accept, notZero]

theorem body_end (isEnd : loop.i.head? = some 0) (positive : 0 < loop.optionLen)
    (inside : loop.optionLen ≤ loop.i.length) :
    ∃ op, loop.body = .running
      { optionLen := 0
        i := loop.i.drop loop.optionLen
        options := loop.options ++ [op]
        optionsLen := loop.optionsLen + loop.optionLen } := by
  have whole := whole_of_end isEnd
  obtain ⟨op, isRead, isSize, isKind⟩ := deserialize_whole whole
  have isZero : op.getKind = 0 := some.inj (isKind.symm.trans isEnd)
  have sum : 1 + (loop.optionLen - 1) = loop.optionLen := by omega
  have discarded : Network.BufferIterator.next (loop.optionLen - 1) loop.i.tail =
    some (loop.i.drop loop.optionLen) := by
    rw [next_of_le, ← drop_one, drop_drop, sum]
    rw [length_tail]
    exact Nat.sub_le_sub_right inside 1
  refine ⟨op, ?_⟩
  simp [body, isRead, isSize, Nat.succ_le_of_lt positive, next_of_le whole.bounds.2, accept, isZero, discarded]

theorem body_left (notEmpty : ¬EmptyOption loop.i) (notAborting : ¬Aborting loop.i)
    (tooLong : ∀ count, Whole loop.i count -> loop.optionLen < count) : loop.body = .left loop := by
  by_cases whole : ∃ count, Whole loop.i count
  · obtain ⟨count, whole⟩ := whole
    obtain ⟨op, isRead, isSize, -⟩ := deserialize_whole whole
    simp [body, isRead, Nat.not_le_of_gt (tooLong count whole)]
  · obtain ⟨read, isRead, differ⟩ := deserialize_malformed notEmpty notAborting (not_exists.mp whole)
    rw [body, isRead]
    exact if_pos differ

/-- What an iteration can do. -/
theorem body_cases (positive : 0 < loop.optionLen) (inside : loop.optionLen ≤ loop.i.length) :
    EmptyOption loop.i ∧ (∃ op, loop.body = .running { loop with options := loop.options ++ [op] }) ∨
    Aborting loop.i ∧ loop.body = .aborted ∨
    (∃ count op, Whole loop.i count ∧ loop.i.head? ≠ some 0 ∧ count ≤ loop.optionLen ∧ loop.body = .running
      { optionLen := loop.optionLen - count
        i := loop.i.drop count
        options := loop.options ++ [op]
        optionsLen := loop.optionsLen + count }) ∨
    (loop.i.head? = some 0 ∧ ∃ op, loop.body = .running
      { optionLen := 0
        i := loop.i.drop loop.optionLen
        options := loop.options ++ [op]
        optionsLen := loop.optionsLen + loop.optionLen }) ∨
    (¬EmptyOption loop.i ∧ ¬Aborting loop.i ∧ (∀ count, Whole loop.i count -> loop.optionLen < count) ∧
      loop.body = .left loop) := by
  by_cases empty : EmptyOption loop.i
  · exact .inl ⟨empty, body_empty empty⟩
  by_cases aborting : Aborting loop.i
  · exact .inr (.inl ⟨aborting, body_aborting aborting⟩)
  by_cases isEnd : loop.i.head? = some 0
  · exact .inr (.inr (.inr (.inl ⟨isEnd, body_end isEnd positive inside⟩)))
  by_cases fits : ∃ count, Whole loop.i count ∧ count ≤ loop.optionLen
  · obtain ⟨count, whole, fits⟩ := fits
    obtain ⟨op, isBody⟩ := body_whole whole isEnd fits
    exact .inr (.inr (.inl ⟨count, op, whole, isEnd, fits, isBody⟩))
  · have tooLong : ∀ count, Whole loop.i count -> loop.optionLen < count :=
      fun count whole => Nat.lt_of_not_le fun le => fits ⟨count, whole, le⟩
    exact .inr (.inr (.inr (.inr ⟨empty, aborting, tooLong, body_left empty aborting tooLong⟩)))

/-! ## The iterations -/

theorem iterations_done (done : loop.optionLen = 0) : loop.iterations rounds = .left loop := by
  cases rounds <;> exact if_pos done

theorem iterations_running {further : OptionLoop} (positive : 0 < loop.optionLen)
    (isBody : loop.body = .running further) :
    loop.iterations (rounds + 1) = further.iterations rounds := by
  rw [iterations, if_neg (Nat.ne_of_gt positive), isBody]

theorem iterations_empty (comes : ComesTo EmptyOption loop.optionLen loop.i) (inside : loop.optionLen ≤ loop.i.length) :
    ∃ further, loop.iterations rounds = .running further := by
  induction rounds generalizing loop with
  | zero => exact ⟨loop, if_neg (Nat.ne_of_gt comes.positive)⟩
  | succ rounds ih =>
    have positive := comes.positive
    by_cases empty : EmptyOption loop.i
    · obtain ⟨op, isBody⟩ := body_empty empty
      rw [iterations_running positive isBody]
      exact ih (.here positive empty) inside
    · cases comes with
      | here _ found => exact absurd found empty
      | behind whole notEnd fits further =>
        obtain ⟨op, isBody⟩ := body_whole whole notEnd fits
        rw [iterations_running positive isBody]
        apply ih further
        rw [length_drop]
        exact Nat.sub_le_sub_right inside _

/-- A loop that does not, ends when there are no options any more, if nothing aborts it. -/
theorem iterations_spec (notEmpty : ¬ComesTo EmptyOption loop.optionLen loop.i)
    (inside : loop.optionLen ≤ loop.i.length)
    (enough : loop.optionLen ≤ rounds) :
    (∃ last, loop.iterations rounds = .left last) ∧ ¬ComesTo Aborting loop.optionLen loop.i ∨
      loop.iterations rounds = .aborted ∧ ComesTo Aborting loop.optionLen loop.i := by
  induction rounds generalizing loop with
  | zero =>
    have done := Nat.le_zero.mp enough
    exact .inl ⟨⟨loop, iterations_done done⟩, fun comes => Nat.ne_of_gt comes.positive done⟩
  | succ rounds ih =>
    by_cases done : loop.optionLen = 0
    · exact .inl ⟨⟨loop, iterations_done done⟩, fun comes => Nat.ne_of_gt comes.positive done⟩
    have positive := Nat.pos_of_ne_zero done
    have notHere : ¬EmptyOption loop.i := fun empty => notEmpty (.here positive empty)
    obtain ⟨empty, -⟩ | ⟨aborting, isBody⟩ | ⟨count, op, whole, notEnd, fits, isBody⟩ | ⟨isEnd, op, isBody⟩ |
      ⟨-, notAborting, tooLong, isBody⟩ := body_cases positive inside
    · exact absurd empty notHere
    · refine .inr ⟨?_, .here positive aborting⟩
      rw [iterations, if_neg done, isBody]
    · rw [iterations_running positive isBody, comesTo_behind_iff whole whole.not_aborting notEnd fits]
      have bounds := whole.bounds
      apply ih
      · intro comes
        exact notEmpty (.behind whole notEnd fits comes)
      · dsimp only
        rw [length_drop]
        exact Nat.sub_le_sub_right inside _
      · dsimp only
        omega
    · refine .inl ⟨⟨_, (iterations_running positive isBody).trans (iterations_done rfl)⟩, fun comes => ?_⟩
      cases comes with
      | here _ found => exact (whole_of_end isEnd).not_aborting found
      | behind _ notEnd _ _ => exact notEnd isEnd
    · refine .inl ⟨⟨loop, ?_⟩, fun comes => ?_⟩
      · rw [iterations, if_neg done, isBody]
      · cases comes with
        | here _ found => exact notAborting found
        | behind whole _ fits _ => exact Nat.not_le_of_gt (tooLong _ whole) fits

/-- What is consumed is what is no longer left of the option area. -/
structure Consumed (area : Nat) (start : List UInt8) (loop : OptionLoop) : Prop where
  left : loop.optionsLen + loop.optionLen = area
  i : loop.i = start.drop loop.optionsLen

/-- The loop that a state holds, if it is not aborted. -/
def reached : LoopState -> Option OptionLoop
  | .running loop => some loop
  | .left loop => some loop
  | .aborted => none

theorem consumed_iterations {area : Nat} {start : List UInt8} (enough : area ≤ start.length)
    (consumed : Consumed area start loop) {last : OptionLoop}
    (isReached : reached (loop.iterations rounds) = some last) : Consumed area start last := by
  induction rounds generalizing loop with
  | zero =>
    rw [iterations] at isReached
    split at isReached <;> exact some.inj isReached ▸ consumed
  | succ rounds ih =>
    by_cases done : loop.optionLen = 0
    · rw [iterations_done done] at isReached
      exact some.inj isReached ▸ consumed
    have positive := Nat.pos_of_ne_zero done
    have sum := consumed.left
    have inside : loop.optionLen ≤ loop.i.length := by
      rw [consumed.i, length_drop]
      omega
    obtain ⟨empty, op, isBody⟩ | ⟨aborting, isBody⟩ | ⟨count, op, whole, notEnd, fits, isBody⟩ | ⟨isEnd, op, isBody⟩ |
      ⟨-, -, -, isBody⟩ := body_cases positive inside
    · rw [iterations_running positive isBody] at isReached
      refine ih ⟨?_, ?_⟩ isReached
      · exact sum
      · exact consumed.i
    · rw [iterations, if_neg done, isBody] at isReached
      cases isReached
    · rw [iterations_running positive isBody] at isReached
      refine ih ⟨?_, ?_⟩ isReached
      · dsimp only
        omega
      · dsimp only
        rw [consumed.i, drop_drop]
    · rw [iterations_running positive isBody] at isReached
      refine ih ⟨?_, ?_⟩ isReached
      · exact sum
      · dsimp only
        rw [consumed.i, drop_drop]
    · rw [iterations, if_neg done, isBody] at isReached
      exact some.inj isReached ▸ consumed

end OptionLoop

/-! ## Parsing terminates -/

/-- The loop has ended after so many iterations, and never consumes more than the option area. -/
def EndsWithin (rounds : Nat) (bytes : List UInt8) : Prop :=
  (∀ loop, (optionLoop bytes).iterations rounds ≠ .running loop) ∧
    ∀ count loop, OptionLoop.reached ((optionLoop bytes).iterations count) = some loop ->
      loop.optionsLen ≤ optionArea bytes ∧ loop.i = bytes.drop (20 + loop.optionsLen)

/-- The loop of a header does not come to an option of unknown kind whose length octet is 0. -/
def NoEmptyOption (bytes : List UInt8) : Prop :=
  ¬ComesTo EmptyOption (optionArea bytes) (bytes.drop 20)

variable {bytes : List UInt8}

theorem optionArea_le : optionArea bytes ≤ 40 := by
  have small : (bytes.getD 12 0).toNat < 2 ^ 8 := UInt8.toNat_lt _
  rw [optionArea, dataOffset]
  omega

/-- The loop ends within 40 iterations just if there is no empty option; and it is not aborted then
if all options are there and each maximum segment size has the length 4. -/
theorem option_loop_ends_iff (bytes : List UInt8) (long : 60 ≤ bytes.length) :
    (EndsWithin 40 bytes ↔ NoEmptyOption bytes) ∧
      ((EndsWithin 40 bytes ∧ ∃ loop, (optionLoop bytes).iterations 40 = .left loop) ↔
        NoEmptyOption bytes ∧ ¬ComesTo Aborting (optionArea bytes) (bytes.drop 20)) := by
  have area : optionArea bytes ≤ 40 := optionArea_le
  have inside : (optionLoop bytes).optionLen ≤ (optionLoop bytes).i.length := by
    change optionArea bytes ≤ (bytes.drop 20).length
    rw [length_drop]
    omega
  have never : ¬NoEmptyOption bytes -> ¬EndsWithin 40 bytes := by
    intro empty ends
    obtain ⟨loop, isRunning⟩ := @OptionLoop.iterations_empty (optionLoop bytes) 40 (not_not.mp empty) inside
    exact ends.1 loop isRunning
  have ends : NoEmptyOption bytes -> EndsWithin 40 bytes := by
    intro notEmpty
    refine ⟨fun loop isRunning => ?_, fun count loop isReached => ?_⟩
    · obtain ⟨⟨last, isLeft⟩, -⟩ | ⟨isAborted, -⟩ :=
        @OptionLoop.iterations_spec (optionLoop bytes) 40 notEmpty inside area
      · cases isLeft.symm.trans isRunning
      · cases isAborted.symm.trans isRunning
    · have start : OptionLoop.Consumed (optionArea bytes) (bytes.drop 20) (optionLoop bytes) := ⟨Nat.zero_add _, rfl⟩
      have consumed := OptionLoop.consumed_iterations inside start isReached
      refine ⟨Nat.le.intro consumed.left, ?_⟩
      rw [consumed.i, ← drop_drop]
      rfl
  have isIff : EndsWithin 40 bytes ↔ NoEmptyOption bytes :=
    ⟨fun isEnd => by_contra fun empty => never empty isEnd, ends⟩
  refine ⟨isIff, ?_⟩
  rw [isIff]
  apply and_congr_right
  intro notEmpty
  obtain ⟨isLeft, notAborting⟩ | ⟨isAborted, aborting⟩ :=
    @OptionLoop.iterations_spec (optionLoop bytes) 40 notEmpty inside area
  · exact iff_of_true isLeft notAborting
  · refine iff_of_false ?_ (not_not_intro aborting)
    rintro ⟨loop, isLeft⟩
    cases isAborted.symm.trans isLeft

/-! ## A header with an empty option -/

/-- A data offset of 6, and an experimental option with the length 0 in the option area. -/
def withEmptyOption : List UInt8 :=
  [0xc0, 0x01, 0, 80, 0, 0, 0, 1, 0, 0, 0, 1, 0x60, 0x10, 0x20, 0, 0, 0, 0, 0, 253, 0, 0, 0] ++ replicate 36 0

/-- A data offset of 6, and a maximum segment size. -/
def withMss : List UInt8 :=
  [0xc0, 0x01, 0, 80, 0, 0, 0, 1, 0, 0, 0, 0, 0x60, 0x02, 0x20, 0, 0, 0, 0, 0, 2, 4, 5, 0xb4] ++ replicate 36 0

/-- The loop does not end, however many rounds it is given. -/
theorem option_loop_not_always_ends : ¬∀ bytes : List UInt8, 60 ≤ bytes.length -> EndsWithin 40 bytes := by
  intro always
  have empty : ComesTo EmptyOption (optionArea withEmptyOption) (withEmptyOption.drop 20) :=
    .here (by decide) ⟨253, _, rfl, by decide⟩
  obtain ⟨loop, isRunning⟩ := @OptionLoop.iterations_empty (optionLoop withEmptyOption) 40 empty (by decide)
  exact (always withEmptyOption (by decide)).1 loop isRunning

theorem option_loop_ends_withMss : EndsWithin 40 withMss ∧ ∃ loop, (optionLoop withMss).iterations 40 = .left loop := by
  have area : optionArea withMss = 4 := by decide
  have whole : Whole (withMss.drop 20) 4 := .inr ⟨by decide, by decide, by decide, by decide, by decide⟩
  have none : ∀ property : List UInt8 -> Prop, ¬property (withMss.drop 20) ->
      ¬ComesTo property (optionArea withMss) (withMss.drop 20) := by
    intro property notHere comes
    rw [area, comesTo_behind_iff whole notHere (by decide) (Nat.le_refl 4)] at comes
    exact Nat.lt_irrefl 0 comes.positive
  exact (option_loop_ends_iff withMss (by decide)).2.mpr ⟨none _ whole.not_empty, none _ whole.not_aborting⟩

end Ns3.Internet.TcpHeader
