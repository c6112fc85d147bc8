import Mathlib.Data.List.TakeWhile

/-!
# Lines of a chunked stream

A reader takes one delimited line after the other from a connection that hands
out its bytes in chunks. What it takes is a function of the bytes alone: two
connections that deliver the same bytes in different chunks serve the same lines,
to any sequence of calls.
-/

namespace Ns3.Semantics

open List

universe u v w

/-- The received bytes no call has taken yet, and the chunks the connection
delivers before it is closed. -/
structure Connection (Byte : Type u) where
  buffer : List Byte
  chunks : List (List Byte)

namespace Connection

variable {Byte : Type u}

/-- The bytes still to be taken, however they are delivered. -/
def stream (connection : Connection Byte) : List Byte :=
  connection.buffer ++ connection.chunks.flatten

variable [DecidableEq Byte]

/-- The bytes before and after the first delimiter. -/
def cut (delimiter : Byte) (bytes : List Byte) : Option (List Byte × List Byte) :=
  if delimiter ∈ bytes then
    some (bytes.takeWhile (· ≠ delimiter), (bytes.dropWhile (· ≠ delimiter)).tail)
  else
    none

/-- Take a line from the buffer, receiving chunks until the buffer has one. A
connection that is closed first gives no line and keeps the rest. -/
def takeLine (delimiter : Byte) : List Byte -> List (List Byte) -> Option (List Byte) × Connection Byte
  | buffer, chunks =>
    match cut delimiter buffer with
    | some (line, rest) => (some line, ⟨rest, chunks⟩)
    | none =>
      match chunks with
      | [] => (none, ⟨buffer, []⟩)
      | chunk :: later => takeLine delimiter (buffer ++ chunk) later
termination_by _ chunks => chunks.length

variable {delimiter : Byte}

variable {line bytes rest : List Byte}

theorem cut_split (rest : List Byte) (absent : delimiter ∉ line) :
    cut delimiter (line ++ delimiter :: rest) = some (line, rest) := by
  have before : ∀ byte ∈ line, (decide (byte ≠ delimiter)) = true := by
    intro byte mem
    have other : byte ≠ delimiter := fun same => absent (same ▸ mem)
    simpa using other
  rw [cut, if_pos (by simp), takeWhile_append_of_pos before, dropWhile_append_of_pos before]
  simp

theorem cut_eq_some : cut delimiter bytes = some (line, rest) ↔
    bytes = line ++ delimiter :: rest ∧ delimiter ∉ line := by
  constructor
  · intro found
    have present : delimiter ∈ bytes := by
      by_contra missing
      rw [cut, if_neg missing] at found
      cases found
    obtain ⟨first, after, rfl, absent⟩ := eq_append_cons_of_mem present
    rw [cut_split after absent] at found
    cases found
    exact ⟨rfl, absent⟩
  · rintro ⟨rfl, absent⟩
    exact cut_split rest absent

/-- A line found in the first bytes is the line found in all of them. -/
theorem cut_append (more : List Byte) (found : cut delimiter bytes = some (line, rest)) :
    cut delimiter (bytes ++ more) = some (line, rest ++ more) := by
  obtain ⟨rfl, absent⟩ := cut_eq_some.mp found
  exact cut_eq_some.mpr ⟨by simp, absent⟩

/-- The line taken, and the bytes left, are those of the stream. -/
theorem takeLine_eq (delimiter : Byte) (buffer : List Byte) (chunks : List (List Byte)) :
    let taken := takeLine delimiter buffer chunks
    let stream := buffer ++ chunks.flatten
    taken.1 = (cut delimiter stream).map Prod.fst ∧
      taken.2.stream = ((cut delimiter stream).map Prod.snd).getD stream := by
  dsimp only
  induction chunks generalizing buffer with
  | nil =>
    rw [takeLine]
    cases found : cut delimiter buffer <;> simp [stream, found]
  | cons chunk later ih =>
    rw [takeLine]
    cases found : cut delimiter buffer with
    | none =>
      have more := ih (buffer ++ chunk)
      simp only [append_assoc] at more
      simpa using more
    | some taken =>
      obtain ⟨line, rest⟩ := taken
      simp [cut_append _ found, stream]

/-- One call after the other, each with the line it takes. -/
def serve {Call : Type v} {Result : Type w} (delimiter : Byte)
    (answer : Call -> Option (List Byte) -> Result) : List Call -> Connection Byte -> List Result
  | [], _ => []
  | call :: later, connection =>
    let taken := takeLine delimiter connection.buffer connection.chunks
    answer call taken.1 :: serve delimiter answer later taken.2

/-- Calls are answered alike however the bytes are cut into chunks. -/
theorem serve_congr {Call : Type v} {Result : Type w} (delimiter : Byte)
    (answer : Call -> Option (List Byte) -> Result) (calls : List Call)
    {left right : Connection Byte} (same : left.stream = right.stream) :
    serve delimiter answer calls left = serve delimiter answer calls right := by
  induction calls generalizing left right with
  | nil => rfl
  | cons call later ih =>
    obtain ⟨leftLine, leftRest⟩ := takeLine_eq delimiter left.buffer left.chunks
    obtain ⟨rightLine, rightRest⟩ := takeLine_eq delimiter right.buffer right.chunks
    have bytes : left.buffer ++ left.chunks.flatten = right.buffer ++ right.chunks.flatten := same
    rw [serve, serve, leftLine, rightLine, bytes]
    congr 1
    apply ih
    rw [leftRest, rightRest, bytes]

end Connection

end Ns3.Semantics
