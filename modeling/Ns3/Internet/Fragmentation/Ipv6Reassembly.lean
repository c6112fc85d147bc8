import Ns3.Internet.Fragmentation.Ipv6Extension

/-!
# Reassembly of IPv6 packets

The receiver asks for fragments that follow each other without a gap and without an overlap. Of the
consecutive parts of a packet it has all exactly if it received each of them once.
-/

namespace Ns3.Internet.Ipv6Extension

open Fragments List Nat

variable {p : List UInt8} {offset size : Nat} {parts received : List (Fragment UInt8)}
  {part other : Fragment UInt8} {kept : List (List UInt8 × Nat)}

/-- What a fragment is kept as. -/
def entry (part : Fragment UInt8) : List UInt8 × Nat :=
  (part.data, part.offset)

/-- Parts of a packet from an offset on, none of them empty. All but the last one are of some size. -/
inductive Consecutive (p : List UInt8) (size : Nat) : Nat -> List (Fragment UInt8) -> Prop where
  | last {offset : Nat} (inside : offset < p.length) : Consecutive p size offset [⟨p.drop offset, offset, false⟩]
  | more {offset : Nat} {rest : List (Fragment UInt8)} (inside : offset + size < p.length)
      (consecutive : Consecutive p size (offset + size) rest) :
      Consecutive p size offset (⟨(p.drop offset).take size, offset, true⟩ :: rest)

namespace Consecutive

section

variable (consecutive : Consecutive p size offset parts)
include consecutive

theorem ne_nil : parts ≠ [] := by
  cases consecutive <;> exact cons_ne_nil _ _

theorem offset_le (mem : part ∈ parts) : offset ≤ part.offset := by
  induction consecutive with
  | last =>
    rw [mem_singleton.mp mem]
  | more _ _ ih =>
    rcases mem_cons.mp mem with rfl | inRest
    · exact le_refl _
    · exact le_trans (le_add_right _ _) (ih inRest)

theorem within (mem : part ∈ parts) : part.offset + part.data.length ≤ p.length := by
  induction consecutive with
  | last inside =>
    rw [mem_singleton.mp mem, length_drop]
    exact Nat.le_of_eq (Nat.add_sub_cancel' (Nat.le_of_lt inside))
  | more inside _ ih =>
    rcases mem_cons.mp mem with rfl | inRest
    · simp only [length_take, length_drop]
      omega
    · exact ih inRest

theorem aligned (multiple : size % 8 = 0) (start : offset % 8 = 0) (mem : part ∈ parts) : part.offset % 8 = 0 := by
  induction consecutive with
  | last =>
    rw [mem_singleton.mp mem]
    exact start
  | more _ _ ih =>
    rcases mem_cons.mp mem with rfl | inRest
    · exact start
    · exact ih (by omega) inRest

theorem offsets_increase (positive : 0 < size) : parts.Pairwise fun first second => first.offset < second.offset := by
  induction consecutive with
  | last => exact pairwise_singleton _ _
  | more inside consecutive ih =>
    refine pairwise_cons.mpr ⟨fun later mem => ?_, ih⟩
    have behind := consecutive.offset_le mem
    exact Nat.lt_of_lt_of_le (Nat.lt_add_of_pos_right positive) behind

theorem nodup (positive : 0 < size) : parts.Nodup := by
  apply (consecutive.offsets_increase positive).imp
  rintro first second less rfl
  exact lt_irrefl _ less

theorem eq_of_offset (positive : 0 < size) (isPart : part ∈ parts)
    (isOther : other ∈ parts) (same : part.offset = other.offset) : part = other := by
  have offsets : (parts.map Fragment.offset).Nodup :=
    pairwise_map.mpr ((consecutive.offsets_increase positive).imp ne_of_lt)
  exact inj_on_of_nodup_map offsets isPart isOther same

theorem exists_last : ∃ last ∈ parts, last.moreFragment = false ∧ last.offset + last.data.length = p.length := by
  induction consecutive with
  | last inside =>
    refine ⟨_, mem_singleton_self _, rfl, ?_⟩
    rw [length_drop]
    exact Nat.add_sub_cancel' (Nat.le_of_lt inside)
  | more _ _ ih =>
    obtain ⟨last, mem, ends⟩ := ih
    exact ⟨last, mem_cons_of_mem _ mem, ends⟩

theorem last_of_not_more (isPart : part ∈ parts)
    (isLast : part.moreFragment = false) (isOther : other ∈ parts) : other.offset ≤ part.offset := by
  induction consecutive with
  | last =>
    rw [mem_singleton.mp isPart, mem_singleton.mp isOther]
  | more inside consecutive ih =>
    rcases mem_cons.mp isPart with rfl | inRest
    · cases isLast
    · rcases mem_cons.mp isOther with rfl | otherInRest
      · exact le_trans (le_add_right _ _) (consecutive.offset_le inRest)
      · exact ih inRest otherInRest

theorem flatMap_data : parts.flatMap Fragment.data = p.drop offset := by
  induction consecutive with
  | last => simp
  | more _ _ ih =>
    rw [flatMap_cons, ih, ← drop_drop, take_append_drop]

theorem contiguousFrom_entries (small : p.length < 2 ^ 16) : contiguousFrom offset (parts.map entry) = true := by
  induction consecutive with
  | last => simp [contiguousFrom, entry]
  | @more offset rest inside consecutive ih =>
    have length : ((p.drop offset).take size).length = size := by
      rw [length_take, length_drop]
      omega
    rw [map_cons, contiguousFrom, entry, if_neg (fun differ => differ rfl), length, mod_eq_of_lt (by omega)]
    exact ih

end

end Consecutive

/-- A walk meets nothing in front of where it starts. -/
theorem contiguousFrom_le (small : p.length < 2 ^ 16) (within : ∀ it ∈ kept, it.2 + it.1.length ≤ p.length)
    (contiguous : contiguousFrom offset kept = true) {it : List UInt8 × Nat} (mem : it ∈ kept) : offset ≤ it.2 := by
  induction kept generalizing offset with
  | nil => cases mem
  | cons first rest ih =>
    rw [contiguousFrom] at contiguous
    split at contiguous
    · cases contiguous
    next here =>
      have starts : offset = first.2 := Decidable.not_not.mp here
      have inside := within first mem_cons_self
      rw [mod_eq_of_lt (by omega)] at contiguous
      rcases mem_cons.mp mem with rfl | inRest
      · exact le_of_eq starts
      · have behind := ih (fun it mem => within it (mem_cons_of_mem _ mem)) contiguous inRest
        exact le_trans (le_add_right _ _) behind

/-- Entries of consecutive parts that are walked up to the last one are all of them, each once. -/
theorem entries_of_contiguous (small : p.length < 2 ^ 16) (positive : 0 < size)
    (consecutive : Consecutive p size offset parts) (areEntries : ∀ it ∈ kept, it ∈ parts.map entry)
    (last : ∃ it ∈ kept, it.2 + it.1.length = p.length) (contiguous : contiguousFrom offset kept = true) :
    kept = parts.map entry := by
  have inside : ∀ it ∈ kept, it.2 + it.1.length ≤ p.length := by
    intro it mem
    obtain ⟨part, isPart, rfl⟩ := mem_map.mp (areEntries it mem)
    exact consecutive.within isPart
  induction consecutive generalizing kept with
  | @last offset isInside =>
    cases kept with
    | nil =>
      obtain ⟨it, mem, -⟩ := last
      cases mem
    | cons first rest =>
      have isFirst := mem_singleton.mp (areEntries first mem_cons_self)
      subst isFirst
      cases rest with
      | nil => rfl
      | cons second others =>
        have isSecond := mem_singleton.mp
          (areEntries second (mem_cons_of_mem _ mem_cons_self))
        subst isSecond
        have length : (offset + (p.length - offset)) % 2 ^ 16 = p.length := by omega
        simp only [contiguousFrom, entry, length_drop, length] at contiguous
        have gap : p.length ≠ offset := ne_of_gt isInside
        simp [gap] at contiguous
  | @more offset rest isInside consecutive ih =>
    have length : ((p.drop offset).take size).length = size := by
      rw [length_take, length_drop]
      omega
    cases kept with
    | nil =>
      obtain ⟨it, mem, -⟩ := last
      cases mem
    | cons first others =>
      rw [contiguousFrom] at contiguous
      split at contiguous
      · cases contiguous
      next here =>
        have starts : offset = first.2 := Decidable.not_not.mp here
        -- Only the first part starts here.
        have isFirst : first = entry ⟨(p.drop offset).take size, offset, true⟩ := by
          rcases mem_cons.mp (areEntries first mem_cons_self) with same | inRest
          · exact same
          · obtain ⟨part, isPart, rfl⟩ := mem_map.mp inRest
            have behind := consecutive.offset_le isPart
            have here : offset = part.offset := starts
            omega
        have insideOthers : ∀ it ∈ others, it.2 + it.1.length ≤ p.length := fun it mem =>
          inside it (mem_cons_of_mem _ mem)
        have firstLength : first.1.length = size := by
          rw [isFirst]
          exact length
        rw [firstLength, mod_eq_of_lt (by omega)] at contiguous
        have behind : ∀ it ∈ others, offset + size ≤ it.2 := fun it mem =>
          contiguousFrom_le small insideOthers contiguous mem
        rw [map_cons, ← isFirst]
        congr 1
        apply ih
        · intro it mem
          rcases mem_cons.mp (areEntries it (mem_cons_of_mem _ mem)) with same | inRest
          · have later := behind it mem
            rw [same] at later
            have notLater : ¬ offset + size ≤ offset := by omega
            exact absurd later notLater
          · exact inRest
        · obtain ⟨it, mem, ends⟩ := last
          rcases mem_cons.mp mem with rfl | inOthers
          · omega
          · exact ⟨it, inOthers, ends⟩
        · exact contiguous
        · exact insideOthers

/-- What the receiver gathers of some parts, with no headers in front. -/
def gatherAll (received : List (Fragment UInt8)) : Gathered :=
  received.foldl (Gathered.add · []) .new

theorem gatherAll_append : gatherAll (received ++ [part]) = (gatherAll received).add [] part := by
  rw [gatherAll, foldl_append]
  rfl

theorem gatherAll_packetFragments : (gatherAll received).packetFragments = gather received := by
  induction received using reverseRecOn with
  | nil => rfl
  | append_singleton received last ih =>
    rw [gatherAll_append, gather_append, ← ih]
    rfl

theorem gatherAll_unfragmentable (first : ∃ part ∈ received, part.offset = 0) :
    (gatherAll received).unfragmentable = some [] := by
  induction received using reverseRecOn with
  | nil =>
    obtain ⟨part, mem, -⟩ := first
    cases mem
  | append_singleton received last ih =>
    rw [gatherAll_append, Gathered.add]
    simp only
    split
    · rfl
    next later =>
      apply ih
      obtain ⟨part, mem, start⟩ := first
      rcases mem_append.mp mem with older | new
      · exact ⟨part, older, start⟩
      · exact absurd (mem_singleton.mp new ▸ start) later

section

variable (positive : 0 < size) (consecutive : Consecutive p size 0 parts)
include positive consecutive

/-- Each part once, in whatever order, is kept in the order of the parts. -/
theorem gather_eq (perm : received.Perm parts) : (gather received).fragments = parts.map entry := by
  have sorted : (parts.map entry).Pairwise fun first second => first.2 ≤ second.2 :=
    pairwise_map.mpr ((consecutive.offsets_increase positive).imp le_of_lt)
  refine List.Perm.eq_of_pairwise ?_ (gather_sorted received) sorted ((gather_perm received).trans (perm.map entry))
  intro it other isKept isEntry atMost atLeast
  obtain ⟨part, isPart, rfl⟩ := mem_gather.mp isKept
  obtain ⟨second, isSecond, rfl⟩ := mem_map.mp isEntry
  rw [consecutive.eq_of_offset positive (perm.subset isPart) isSecond (le_antisymm atMost atLeast)]
  rfl

theorem isEntire_iff (small : p.length < 2 ^ 16) (isPart : received ⊆ parts) :
    (gatherAll received).isEntire = true ↔ received.Perm parts := by
  rw [Gathered.isEntire, gatherAll_packetFragments, Bool.and_eq_true, Bool.and_eq_true, Bool.not_eq_true',
    Bool.not_eq_true', isEmpty_eq_false_iff]
  constructor
  · rintro ⟨⟨clear, some⟩, contiguous⟩
    have nonempty : received ≠ [] := by
      rintro rfl
      exact some rfl
    obtain ⟨before, last, after, split, isLast, -, -⟩ := (gather_moreFragment nonempty).mp clear
    have isReceived : last ∈ received := by
      rw [split]
      exact mem_append_right _ mem_cons_self
    -- A part that is said to be the last one ends where the packet ends.
    have ends : last.offset + last.data.length = p.length := by
      obtain ⟨final, isFinal, notMore, atEnd⟩ := consecutive.exists_last
      have atMost := consecutive.last_of_not_more (isPart isReceived) isLast isFinal
      have atLeast := consecutive.last_of_not_more isFinal notMore (isPart isReceived)
      rw [consecutive.eq_of_offset positive (isPart isReceived) isFinal (le_antisymm atLeast atMost)]
      exact atEnd
    have all := entries_of_contiguous small positive consecutive (fun it mem => by
      obtain ⟨part, received, rfl⟩ := mem_gather.mp mem
      exact mem_map_of_mem (f := entry) (isPart received))
      ⟨_, mem_gather.mpr ⟨last, isReceived, rfl⟩, ends⟩ contiguous
    have perm : (received.map entry).Perm (parts.map entry) :=
      (gather_perm received).symm.trans (all ▸ List.Perm.refl _)
    have nodupEntries : (parts.map entry).Nodup := by
      apply (pairwise_map.mpr (consecutive.offsets_increase positive) :
        (parts.map entry).Pairwise fun first second => first.2 < second.2).imp
      rintro first second less rfl
      exact lt_irrefl _ less
    have nodup : received.Nodup := (perm.nodup_iff.mpr nodupEntries).of_map entry
    refine (perm_ext_iff_of_nodup nodup (consecutive.nodup positive)).mpr fun part =>
      ⟨fun mem => isPart mem, fun mem => ?_⟩
    obtain ⟨other, isOther, same⟩ := mem_map.mp (perm.mem_iff.mpr (mem_map_of_mem (f := entry) mem))
    rw [← consecutive.eq_of_offset positive (isPart isOther) mem (congrArg Prod.snd same)]
    exact isOther
  · intro perm
    have nonempty : received ≠ [] := by
      rintro rfl
      exact consecutive.ne_nil perm.symm.eq_nil
    have kept := gather_eq positive consecutive perm
    refine ⟨⟨(gather_moreFragment nonempty).mpr ?_, ?_⟩, ?_⟩
    · obtain ⟨last, isLast, notMore, -⟩ := consecutive.exists_last
      obtain ⟨before, after, split⟩ := append_of_mem (perm.mem_iff.mpr isLast)
      have nodup := perm.nodup_iff.mpr (consecutive.nodup positive)
      refine ⟨before, last, after, split, notMore, fun other mem => ?_, fun other mem => ?_⟩
      · apply consecutive.last_of_not_more isLast notMore
        apply isPart
        rw [split]
        exact mem_append_left _ mem
      · have isOther : other ∈ parts := by
          apply isPart
          rw [split]
          exact mem_append_right _ (mem_cons_of_mem _ mem)
        have atMost := consecutive.last_of_not_more isLast notMore isOther
        refine lt_of_le_of_ne atMost fun same => ?_
        obtain rfl := consecutive.eq_of_offset positive isOther isLast same
        rw [split] at nodup
        exact (nodup_cons.mp (nodup_append.mp nodup).2.1).1 mem
    · rw [kept]
      exact fun none => consecutive.ne_nil (map_eq_nil_iff.mp none)
    · rw [kept]
      exact consecutive.contiguousFrom_entries small

theorem getPacket_gatherAll (perm : received.Perm parts) : (gatherAll received).getPacket = some p := by
  have first : ∃ part ∈ received, part.offset = 0 := by
    cases consecutive with
    | last => exact ⟨_, perm.mem_iff.mpr mem_cons_self, rfl⟩
    | more => exact ⟨_, perm.mem_iff.mpr mem_cons_self, rfl⟩
  have data : (parts.map entry).flatMap Prod.fst = parts.flatMap Fragment.data := flatMap_map entry Prod.fst parts
  rw [Gathered.getPacket, gatherAll_unfragmentable first, gatherAll_packetFragments,
    gather_eq positive consecutive perm, data, consecutive.flatMap_data]
  simp

end

end Ns3.Internet.Ipv6Extension
