import Ns3.Internet.Fragmentation.Fragments
import Mathlib.Algebra.Group.Nat.Defs

/-!
# Reassembly of IPv4 datagrams

`Ipv4L3Protocol::Fragments` accepts fragments that overlap. Of the fragments of a payload it has
all exactly if they are complete and the flag is that of a last one, and what it puts together then
is the payload.
-/

namespace Ns3.Internet.Fragments

open List Nat

variable {Octet : Type}

/-- The walk of `IsEntire` from an offset on. -/
def entireFrom (lastEndOffset : Nat) : List (List Octet × Nat) -> Bool
  | [] => true
  | it :: rest =>
    if lastEndOffset < it.2 then false
    else entireFrom (max lastEndOffset ((it.1.length + it.2) % 2 ^ 16)) rest

variable (fragments : Fragments Octet)

def isEntire : Bool :=
  !fragments.moreFragment && !fragments.fragments.isEmpty && entireFrom 0 fragments.fragments

/-- Append the fragments, each without what is there already. -/
def packetFrom (p : List Octet) : List (List Octet × Nat) -> List Octet
  | [] => p
  | it :: rest =>
    let lastEndOffset := p.length % 2 ^ 16
    if lastEndOffset > it.2 then
      let newStart := lastEndOffset - it.2
      if it.1.length > newStart then packetFrom (p ++ (it.1.drop newStart).take (it.1.length - newStart)) rest
      else packetFrom p rest
    else packetFrom (p ++ it.1) rest

/-- Called for fragments that are entire, of which there is a first one. -/
def getPacket : List Octet :=
  match fragments.fragments with
  | [] => []
  | it :: rest => packetFrom it.1 rest

/-- Append the fragments up to the first gap. The size left of a fragment that lies within what is
there wraps around, and nothing of it is copied. -/
def partialFrom (p : List Octet) : List (List Octet × Nat) -> List Octet
  | [] => p
  | it :: rest =>
    let lastEndOffset := p.length % 2 ^ 16
    if lastEndOffset > it.2 then partialFrom (p ++ it.1.drop (lastEndOffset - it.2)) rest
    else if lastEndOffset = it.2 then partialFrom (p ++ it.1) rest
    else partialFrom p rest

/-- What there is at the front. -/
def getPartialPacket : List Octet :=
  match fragments.fragments with
  | [] => []
  | it :: rest => if it.2 > 0 then [] else partialFrom [] (it :: rest)

variable {payload p : List Octet} {parts : List (List Octet × Nat)} {received : List (Fragment Octet)}
  {lastEndOffset position : Nat}

/-- Parts of a payload, in the list of a receiver. -/
def Parts (payload : List Octet) (parts : List (List Octet × Nat)) : Prop :=
  ∀ it ∈ parts, it.2 + it.1.length ≤ payload.length ∧ it.1 = (payload.drop it.2).take it.1.length

variable {it : List Octet × Nat}

theorem Parts.tail (isParts : Parts payload (it :: parts)) : Parts payload parts :=
  fun other mem => isParts other (mem_cons_of_mem _ mem)

theorem parts_gather (isPart : ∀ fragment ∈ received, PartOf payload fragment) :
    Parts payload (gather received).fragments := by
  intro it mem
  obtain ⟨fragment, isReceived, rfl⟩ := mem_gather.mp mem
  exact ⟨(isPart fragment isReceived).within, (isPart fragment isReceived).data⟩

section

variable (small : payload.length < 2 ^ 16)
include small

theorem end_of_parts (isParts : Parts payload (it :: parts)) : (it.1.length + it.2) % 2 ^ 16 = it.2 + it.1.length := by
  have within := (isParts it mem_cons_self).1
  rw [add_comm]
  exact mod_eq_of_lt (lt_of_le_of_lt within small)

/-- Parts that leave nothing out are walked to the end. -/
theorem entireFrom_of_covered (isParts : Parts payload parts)
    (sorted : parts.Pairwise fun first second => first.2 ≤ second.2)
    (covered : ∀ position, lastEndOffset ≤ position -> position < payload.length ->
      ∃ it ∈ parts, it.2 ≤ position ∧ position < it.2 + it.1.length) :
    entireFrom lastEndOffset parts = true := by
  induction parts generalizing lastEndOffset with
  | nil => rfl
  | cons it rest ih =>
    have within := (isParts it mem_cons_self).1
    obtain ⟨least, sortedRest⟩ := pairwise_cons.mp sorted
    have noGap : ¬ lastEndOffset < it.2 := by
      intro gap
      obtain ⟨other, mem, starts, -⟩ := covered lastEndOffset (le_refl _) (by omega)
      rcases mem_cons.mp mem with rfl | inRest
      · omega
      · have later := least other inRest
        omega
    rw [entireFrom, if_neg noGap, end_of_parts small isParts]
    apply ih isParts.tail sortedRest
    intro position behind bound
    obtain ⟨other, mem, starts, ends⟩ := covered position (by omega) bound
    rcases mem_cons.mp mem with rfl | inRest
    · omega
    · exact ⟨other, inRest, starts, ends⟩

/-- Parts that are walked to the end, one of them up to the end of the payload, leave nothing out. -/
theorem covered_of_entireFrom (isParts : Parts payload parts)
    (entire : entireFrom lastEndOffset parts = true)
    (last : ∃ it ∈ parts, it.2 + it.1.length = payload.length)
    (behind : lastEndOffset ≤ position) (bound : position < payload.length) :
    ∃ it ∈ parts, it.2 ≤ position ∧ position < it.2 + it.1.length := by
  induction parts generalizing lastEndOffset with
  | nil =>
    obtain ⟨it, mem, -⟩ := last
    cases mem
  | cons it rest ih =>
    rw [entireFrom, end_of_parts small isParts] at entire
    split at entire
    · cases entire
    next noGap =>
      by_cases inside : position < it.2 + it.1.length
      · exact ⟨it, mem_cons_self, by omega, inside⟩
      · obtain ⟨lastPart, mem, ends⟩ := last
        have inRest : lastPart ∈ rest := by
          rcases mem_cons.mp mem with rfl | inRest
          · omega
          · exact inRest
        obtain ⟨other, isOther, covers⟩ :=
          ih isParts.tail entire ⟨lastPart, inRest, ends⟩ (by omega)
        exact ⟨other, mem_cons_of_mem _ isOther, covers⟩

/-- All of a payload has been received exactly if the fragments are complete, and the one that
came last among the furthest is a last one. -/
theorem isEntire_gather (isPart : ∀ fragment ∈ received, PartOf payload fragment) :
    (gather received).isEntire = true ↔ Complete payload received ∧ LastDecides received := by
  have isParts := parts_gather isPart
  rw [isEntire, Bool.and_eq_true, Bool.and_eq_true, Bool.not_eq_true', Bool.not_eq_true', isEmpty_eq_false_iff]
  constructor
  · rintro ⟨⟨clear, some⟩, entire⟩
    have nonempty : received ≠ [] := by
      rintro rfl
      exact some rfl
    have decides := (gather_moreFragment nonempty).mp clear
    obtain ⟨before, last, after, split, isLast, -, -⟩ := decides
    have isReceived : last ∈ received := by
      rw [split]
      exact mem_append_right _ mem_cons_self
    have ends := (isPart last isReceived).last.mp isLast
    refine ⟨⟨fun position bound => ?_, last, isReceived, isLast⟩, (gather_moreFragment nonempty).mp clear⟩
    obtain ⟨it, mem, covers⟩ := covered_of_entireFrom small isParts entire
      ⟨_, mem_gather.mpr ⟨last, isReceived, rfl⟩, ends⟩ (zero_le position) bound
    obtain ⟨fragment, isFragment, rfl⟩ := mem_gather.mp mem
    exact ⟨fragment, isFragment, covers⟩
  · rintro ⟨complete, decides⟩
    refine ⟨⟨(gather_moreFragment complete.ne_nil).mpr decides, fun none => ?_⟩, ?_⟩
    · obtain ⟨fragment, mem, -⟩ := complete.2
      have kept := mem_gather.mpr ⟨fragment, mem, rfl⟩
      rw [none] at kept
      exact not_mem_nil kept
    · apply entireFrom_of_covered small isParts (gather_sorted received)
      intro position _ bound
      obtain ⟨fragment, mem, covers⟩ := complete.1 position bound
      exact ⟨_, mem_gather.mpr ⟨fragment, mem, rfl⟩, covers⟩

end

/-- Where a walk over parts ends. -/
def endFrom (lastEndOffset : Nat) : List (List Octet × Nat) -> Nat
  | [] => lastEndOffset
  | it :: rest => endFrom (max lastEndOffset (it.2 + it.1.length)) rest

theorem le_endFrom (mem : it ∈ parts) : it.2 + it.1.length ≤ endFrom lastEndOffset parts := by
  have grows : ∀ (parts : List (List Octet × Nat)) (start : Nat), start ≤ endFrom start parts := by
    intro parts
    induction parts with
    | nil => exact fun _ => le_refl _
    | cons first rest ih =>
      exact fun start => le_trans (le_max_left _ _) (ih _)
  induction parts generalizing lastEndOffset with
  | nil => cases mem
  | cons first rest ih =>
    rcases mem_cons.mp mem with rfl | inRest
    · exact le_trans (le_max_right _ _) (grows rest _)
    · exact ih inRest

theorem packetFrom_eq (small : payload.length < 2 ^ 16) (isParts : Parts payload parts)
    (front : p = payload.take p.length) (within : p.length ≤ payload.length)
    (entire : entireFrom p.length parts = true) :
    packetFrom p parts = payload.take (endFrom p.length parts) := by
  induction parts generalizing p with
  | nil => exact front
  | cons it rest ih =>
    obtain ⟨inside, data⟩ := isParts it mem_cons_self
    rw [entireFrom, end_of_parts small isParts] at entire
    split at entire
    · cases entire
    next noGap =>
      have length : p.length % 2 ^ 16 = p.length := mod_eq_of_lt (by omega)
      rw [packetFrom, endFrom]
      simp only [length]
      by_cases longer : it.1.length > p.length - it.2
      · -- What lies behind the end so far is appended.
        have appended : p ++ it.1.drop (p.length - it.2) = payload.take (it.2 + it.1.length) := by
          have rest' : it.1.drop (p.length - it.2) =
              (payload.drop p.length).take (it.1.length - (p.length - it.2)) := by
            conv_lhs => rw [data]
            rw [drop_take, drop_drop]
            congr 2
            omega
          rw [rest']
          conv_lhs => rw [front]
          rw [length_take, min_eq_left within, ← take_add]
          congr 1
          omega
        have endsAt : (p ++ it.1.drop (p.length - it.2)).length = it.2 + it.1.length := by
          rw [appended, length_take, min_eq_left inside]
        have maximum : max p.length (it.2 + it.1.length) = it.2 + it.1.length := by omega
        have next := ih (p := p ++ it.1.drop (p.length - it.2)) isParts.tail
          (by rw [endsAt, appended]) (by omega) (by rw [endsAt, ← maximum]; exact entire)
        rw [endsAt] at next
        rw [maximum, ← next]
        split
        · rw [take_of_length_le (by simp)]
        next start =>
          have none : p.length - it.2 = 0 := by omega
          rw [none, drop_zero]
      · have overlapping : p.length > it.2 ∨ it.1 = [] := by
          by_cases empty : it.1 = []
          · exact .inr empty
          · have pos : 0 < it.1.length := length_pos_iff.mpr empty
            exact .inl (by omega)
        have maximum : max p.length (it.2 + it.1.length) = p.length := by omega
        rw [maximum] at entire ⊢
        have next := ih isParts.tail front within entire
        rw [← next]
        split
        · rfl
        next start =>
          rw [overlapping.resolve_left start, append_nil]

theorem getPacket_gather (small : payload.length < 2 ^ 16)
    (isPart : ∀ fragment ∈ received, PartOf payload fragment) (entire : (gather received).isEntire = true) :
    (gather received).getPacket = payload := by
  have isParts := parts_gather isPart
  obtain ⟨⟨-, last, isReceived, isLast⟩, -⟩ := (isEntire_gather small isPart).mp entire
  have ends := (isPart last isReceived).last.mp isLast
  have kept := mem_gather.mpr ⟨last, isReceived, rfl⟩
  rw [isEntire, Bool.and_eq_true] at entire
  unfold getPacket
  cases isList : (gather received).fragments with
  | nil =>
    rw [isList] at kept
    cases kept
  | cons it rest =>
    rw [isList] at isParts kept entire
    have start := entire.2
    obtain ⟨inside, data⟩ := isParts it mem_cons_self
    rw [entireFrom, end_of_parts small isParts] at start
    split at start
    · cases start
    next noGap =>
      have zero : it.2 = 0 := by omega
      rw [zero, zero_add] at start inside
      rw [zero, drop_zero] at data
      rw [max_eq_right (zero_le _)] at start
      have all := packetFrom_eq small isParts.tail data inside start
      have reach : payload.length ≤ endFrom 0 (it :: rest) := by
        rw [← ends]
        exact le_endFrom kept
      rw [endFrom, zero, zero_add, max_eq_right (zero_le _)] at reach
      exact all.trans (take_of_length_le reach)

end Ns3.Internet.Fragments
