import Mathlib.Data.List.Basic

/-!
# Block ack windows

Sequence numbers have twelve bits, and how far one is ahead of another is counted around. A
`BlockAckWindow` keeps one bit for each number from `WinStart` on, in a vector used as a ring:
`marked_advance` says which bits are left when the window moves.
-/

namespace Ns3.Wifi

open List

/-- `SEQNO_SPACE_SIZE`. -/
def seqnoSpaceSize : Nat := 4096

def seqnoSpaceHalfSize : Nat := seqnoSpaceSize / 2

/-- How far a number is ahead of a starting one. -/
def distance (seqNumber startingSeqNumber : Nat) : Nat :=
  (seqNumber + seqnoSpaceSize - startingSeqNumber) % seqnoSpaceSize

/-- `GetDistance`, which asserts that both are sequence numbers. -/
def getDistance (seqNumber startingSeqNumber : Nat) : Option Nat :=
  if seqNumber < seqnoSpaceSize ∧ startingSeqNumber < seqnoSpaceSize then some (distance seqNumber startingSeqNumber)
  else none

structure BlockAckWindow where
  winStart : Nat
  window : List Bool
  /-- The place of the bit of `WinStart`. -/
  head : Nat
  deriving DecidableEq

namespace BlockAckWindow

def init (winStart winSize : Nat) : BlockAckWindow where
  winStart := winStart
  window := replicate winSize false
  head := 0

variable (window : BlockAckWindow)

def reset (winStart : Nat) : BlockAckWindow :=
  init winStart window.window.length

def getWinSize : Nat :=
  window.window.length

/-- The place of a bit in the vector. -/
def place (distance : Nat) : Nat :=
  (window.head + distance) % window.window.length

/-- `At`, read. Asserts that the distance is less than the size. -/
def getAt (distance : Nat) : Option Bool :=
  if distance < window.getWinSize then window.window[window.place distance]? else none

/-- `At`, set to 1. -/
def setAt (distance : Nat) : Option BlockAckWindow :=
  if distance < window.getWinSize then some { window with window := window.window.set (window.place distance) true }
  else none

/-- The loop of `Advance`: clear the bit in front and go on. -/
def clearFront : Nat -> BlockAckWindow -> BlockAckWindow
  | 0, window => window
  | count + 1, window =>
    clearFront count { window with
        window := window.window.set window.head false
        head := (window.head + 1) % window.window.length }

def advance (count : Nat) : BlockAckWindow :=
  if count ≥ window.getWinSize then window.reset ((window.winStart + count) % seqnoSpaceSize)
  else { clearFront count window with winStart := (window.winStart + count) % seqnoSpaceSize }

/-- The head is a place of the vector. -/
structure WellFormed (window : BlockAckWindow) : Prop where
  head_lt : window.head < window.window.length
  start_lt : window.winStart < seqnoSpaceSize

/-- The bit of the number at a distance. -/
def bit (distance : Nat) : Bool :=
  window.window[window.place distance]?.getD false

variable {window : BlockAckWindow} {count first second seqNumber : Nat}

theorem ring_eq {size head dist : Nat} (inside : head < size) (near : dist < size) :
    (head + dist) % size = if head + dist < size then head + dist else head + dist - size := by
  split
  next less => exact Nat.mod_eq_of_lt less
  next notLess =>
    rw [Nat.mod_eq_sub_mod (Nat.le_of_not_lt notLess)]
    exact Nat.mod_eq_of_lt (by omega)

theorem place_lt (wellFormed : window.WellFormed) (dist : Nat) : window.place dist < window.window.length :=
  Nat.mod_lt _ (Nat.lt_of_le_of_lt (Nat.zero_le _) wellFormed.head_lt)

theorem place_inj (wellFormed : window.WellFormed) (isFirst : first < window.getWinSize)
    (isSecond : second < window.getWinSize) (same : window.place first = window.place second) : first = second := by
  have head := wellFormed.head_lt
  rw [getWinSize] at isFirst isSecond
  rw [place, place, ring_eq head isFirst, ring_eq head isSecond] at same
  split at same <;> split at same <;> omega

theorem getAt_eq (wellFormed : window.WellFormed) (near : first < window.getWinSize) :
    window.getAt first = some (window.bit first) := by
  rw [getAt, if_pos near, bit, getElem?_eq_getElem (place_lt wellFormed first)]
  rfl

theorem wellFormed_init {winStart winSize : Nat} (pos : 0 < winSize) (start : winStart < seqnoSpaceSize) :
    (init winStart winSize).WellFormed :=
  ⟨by simpa [init] using pos, start⟩

theorem bit_init {winStart winSize : Nat} : (init winStart winSize).bit first = false := by
  rw [bit, init]
  simp only [getElem?_replicate]
  split <;> rfl

section

variable (wellFormed : window.WellFormed)
include wellFormed

theorem setAt_spec (near : first < window.getWinSize) :
    ∃ next, window.setAt first = some next ∧ next.WellFormed ∧ next.getWinSize = window.getWinSize ∧
      next.winStart = window.winStart ∧
      ∀ other, other < window.getWinSize -> next.bit other = (decide (other = first) || window.bit other) := by
  have length : ∀ place, (window.window.set place true).length = window.window.length := fun place => length_set
  refine ⟨_, if_pos near, ⟨?_, wellFormed.start_lt⟩, length _, rfl, fun other isNear => ?_⟩
  · rw [length]
    exact wellFormed.head_lt
  · have samePlace : place { window with window := window.window.set (window.place first) true } other =
        window.place other := by
      rw [place, length]
      rfl
    rw [bit, samePlace]
    by_cases same : other = first
    · subst same
      simp [place_lt wellFormed other]
    · have ne : window.place first ≠ window.place other := fun samePlaces =>
        same (place_inj wellFormed near isNear samePlaces).symm
      simp [ne, same, bit]

/-- Each round of the loop drops the bit in front, and a clear one comes up behind. -/
theorem clearFront_spec (less : count < window.getWinSize) :
    (clearFront count window).WellFormed ∧ (clearFront count window).getWinSize = window.getWinSize ∧
      ∀ dist, dist < window.getWinSize ->
        (clearFront count window).bit dist =
          if dist + count < window.getWinSize then window.bit (dist + count) else false := by
  induction count generalizing window with
  | zero =>
    refine ⟨wellFormed, rfl, fun dist near => ?_⟩
    rw [Nat.add_zero, if_pos near]
    rfl
  | succ count ih =>
    have head := wellFormed.head_lt
    rw [clearFront]
    have length : (window.window.set window.head false).length = window.window.length := length_set
    have pos : 0 < window.window.length := by omega
    have step : ∀ dist, dist < window.getWinSize ->
        bit { window with
          window := window.window.set window.head false
          head := (window.head + 1) % window.window.length } dist =
        if dist + 1 < window.getWinSize then window.bit (dist + 1) else false := by
      intro dist near
      rw [getWinSize] at near ⊢
      have moved : place { window with
          window := window.window.set window.head false
          head := (window.head + 1) % window.window.length } dist = window.place (dist + 1) := by
        rw [place, place, length, Nat.mod_add_mod]
        congr 1
        omega
      rw [bit, moved]
      split
      next inside =>
        have ne : window.head ≠ window.place (dist + 1) := by
          rw [place, ring_eq head inside]
          split <;> omega
        simp only [getElem?_set_ne ne, bit]
      next last =>
        have front : window.place (dist + 1) = window.head := by
          have whole : dist + 1 = window.window.length := by omega
          rw [place, whole, Nat.add_mod_right, Nat.mod_eq_of_lt head]
        simp [front, head]
    have wellFormed' : WellFormed { window with
        window := window.window.set window.head false
        head := (window.head + 1) % window.window.length } := by
      refine ⟨?_, wellFormed.start_lt⟩
      rw [length]
      exact Nat.mod_lt _ pos
    have sameSize : getWinSize { window with
        window := window.window.set window.head false
        head := (window.head + 1) % window.window.length } = window.getWinSize := length
    obtain ⟨kept, size, bits⟩ := @ih { window with
        window := window.window.set window.head false
        head := (window.head + 1) % window.window.length } wellFormed' (by omega)
    refine ⟨kept, size.trans sameSize, fun dist near => ?_⟩
    rw [bits dist (by omega), sameSize]
    by_cases inside : dist + count < window.getWinSize
    · rw [if_pos inside, step _ inside]
      rfl
    · rw [if_neg inside, if_neg (by omega)]

theorem advance_spec :
    (window.advance count).WellFormed ∧ (window.advance count).getWinSize = window.getWinSize ∧
      (window.advance count).winStart = (window.winStart + count) % seqnoSpaceSize ∧
      ∀ dist, dist < window.getWinSize -> (window.advance count).bit dist =
          if dist + count < window.getWinSize then window.bit (dist + count) else false := by
  have start : (window.winStart + count) % seqnoSpaceSize < seqnoSpaceSize := Nat.mod_lt _ (by decide)
  have pos : 0 < window.window.length := Nat.lt_of_le_of_lt (Nat.zero_le _) wellFormed.head_lt
  rw [advance]
  split
  next far =>
    refine ⟨wellFormed_init pos start, by simp [reset, init, getWinSize], rfl, fun dist near => ?_⟩
    rw [reset, bit_init, if_neg (by omega)]
  next near =>
    obtain ⟨kept, size, bits⟩ := clearFront_spec wellFormed (Nat.lt_of_not_ge near)
    exact ⟨⟨kept.head_lt, start⟩, size, rfl, bits⟩

/-- A number is in the window. -/
def Covers (window : BlockAckWindow) (seqNumber : Nat) : Prop :=
  distance seqNumber window.winStart < window.getWinSize

/-- The bit of a number. -/
def marked (window : BlockAckWindow) (seqNumber : Nat) : Bool :=
  window.bit (distance seqNumber window.winStart)

/-- Of the numbers that a window covers after it has moved, those that it covered before keep their
bits, and the others have a clear one. -/
theorem marked_advance (fits : count + window.getWinSize ≤ seqnoSpaceSize)
    (isNumber : seqNumber < seqnoSpaceSize) (covers : (window.advance count).Covers seqNumber) :
    (window.advance count).marked seqNumber = true ↔ window.Covers seqNumber ∧ window.marked seqNumber = true := by
  obtain ⟨-, size, start, bits⟩ := advance_spec wellFormed
  have startLt := wellFormed.start_lt
  rw [Covers, size, start] at covers
  have ahead : distance seqNumber window.winStart =
      distance seqNumber ((window.winStart + count) % seqnoSpaceSize) + count := by
    rw [distance, distance, seqnoSpaceSize] at *
    omega
  rw [marked, start, bits _ covers, Covers, marked, ahead]
  split
  next inside => exact ⟨fun isSet => ⟨inside, isSet⟩, fun both => both.2⟩
  next outside => exact ⟨fun none => absurd none Bool.false_ne_true, fun both => absurd both.1 outside⟩

end

end BlockAckWindow

end Ns3.Wifi
