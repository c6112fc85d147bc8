import Ns3.Network.PacketTagList.Lists

/-!
# Traversals of packet tag lists

What the loops of a packet tag list come to, for a list that is a chain of nodes: where the
search stops, and that copying the nodes in front of a tag leaves every list as it was.
-/

namespace Ns3.Network.PacketTagList

open Ns3.Semantics.SharedList List Option UInt32 Heap

variable {Tid Value Out : Type} {heap : TagHeap Tid} {tid : Tid} {fuel owner : Nat}
  {target : Option Nat} {link : Link} {entries before passed tail : List (Nat × TagData Tid)} {location : Nat}
  {load : TagData Tid}

theorem freePrev_disown {prev : Option Nat} (ne : prev ≠ some location) :
    freePrev (heap.disown location) prev = (freePrev heap prev).disown location := by
  cases prev with
  | none => rfl
  | some other => exact free_disown_comm fun same => ne (congrArg some same)

/-- The loop of `RemoveAll` frees one node behind the one it is at. What it works on is the list
without the nodes passed, once the last of these has been freed. -/
theorem removeAllLoop_at {prev cur : Option Nat}
    (stands : At ((freePrev heap prev).point (.head owner) cur) owner [] entries)
    (starts : cur = start entries) (enough : entries.length ≤ fuel) :
    ∃ changed last, removeAllLoop fuel heap prev cur = some (changed, last) ∧
      Changes ((freePrev heap prev).point (.head owner) cur) ((freePrev changed last).point (.head owner) none)
        owner [] ∧
      ∀ other, ((freePrev changed last).point (.head owner) none).counted other ≤
        ((freePrev heap prev).point (.head owner) cur).counted other := by
  induction entries generalizing heap prev cur fuel with
  | nil =>
    obtain rfl := starts
    refine ⟨heap, prev, ?_, stands.unchanged, fun _ => Nat.le_refl _⟩
    cases fuel <;> rfl
  | cons entry tail ih =>
    obtain ⟨location, load⟩ := entry
    obtain rfl : cur = some location := starts
    obtain ⟨node, live, rfl, pos, -⟩ := stands.node_first
    have ne : prev ≠ some location := by
      rintro rfl
      rw [node_point, if_neg Link.noConfusion, freePrev, node_free_self] at live
      exact absurd live (by simp)
    have sameNode : heap.node location = some node := by
      rw [← live, node_point, if_neg Link.noConfusion]
      cases prev with
      | none => rfl
      | some other => exact (node_put_of_ne fun same => ne (congrArg some same.symm)).symm
    have one : (1 : UInt32) ≤ node.count := UInt32.le_iff_toNat_le.mpr pos
    cases fuel with
    | zero => exact absurd enough (Nat.not_succ_le_zero _)
    | succ fuel =>
      by_cases shared : node.count - 1 > 0
      · have abandoned := stands.abandon
        rw [point_point_head] at abandoned
        refine ⟨heap.disown location, prev, ?_, ?_, fun other => ?_⟩
        · rw [removeAllLoop, sameNode, bind_some, if_pos shared]
        · rw [freePrev_disown ne]
          exact abandoned
        · rw [freePrev_disown ne, counted_point, counted_point]
          exact counted_disown_le live pos
      · have once : counted ((freePrev heap prev).point (.head owner) (some location)) location ≤ 1 := by
          have := mt UInt32.lt_iff_toNat_lt.mpr shared
          rw [UInt32.toNat_sub_of_le _ _ one] at this
          rw [counted_of_node live]
          exact Nat.le_of_not_lt fun more => this (Nat.sub_pos_of_lt more)
        have unlinked := stands.unlink live once
        have reached : ((freePrev heap prev).point (.head owner) (some location)).unlink
            (At.link owner ([] : List (Nat × TagData Tid))) location node.next =
              (freePrev (freePrev (heap.disown location) prev) (some location)).point (.head owner) node.next := by
          rw [freePrev_disown ne, freePrev, free_disown]
          exact congrArg (fun pointed => free pointed location) point_point_head
        rw [reached] at unlinked
        obtain ⟨changed, last, removed, changes, fewer⟩ := ih
          ⟨unlinked.counted, unlinked.length ▸ stands.valid, unlinked.own, fun _ none => nomatch none⟩
          (stands.rest_chain live).target_eq (Nat.le_of_succ_le_succ enough)
        refine ⟨changed, last, ?_, unlinked.trans changes, fun other => Nat.le_trans (fewer other) ?_⟩
        · rw [removeAllLoop, sameNode, bind_some, if_neg shared]
          exact removed
        · rw [counted_point, counted_point, freePrev_disown ne, freePrev, free_disown]
          exact counted_free_le live

theorem removeAll_at (stands : At heap owner [] entries) :
    ∃ changed, removeAll heap owner = some changed ∧ Changes heap changed owner [] ∧
      ∀ other, changed.counted other ≤ heap.counted other := by
  have same := point_follow_head stands.valid
  have whole : Chain heap (heap.follow (.head owner)) entries := stands.chain
  obtain ⟨changed, last, removed, changes, fewer⟩ := @removeAllLoop_at _ heap heap.nodes.length owner entries none
    (heap.follow (.head owner))
      (by change At (heap.point _ _) owner [] entries; rwa [same]) whole.target_eq whole.length_le
  change Changes (heap.point _ _) _ owner [] at changes
  change ∀ other, _ ≤ (heap.point _ _).counted other at fewer
  rw [same] at changes fewer
  exact ⟨_, by rw [removeAll, removed, map_some], changes, fewer⟩

variable [DecidableEq Tid]

theorem find_chain (chain : Chain heap target entries) (enough : entries.length ≤ fuel) :
    find heap tid fuel target = some ((entries.find? fun entry => entry.2.tid = tid).map Prod.fst) := by
  induction chain generalizing fuel with
  | nil => rw [find, find?_nil, map_none]
  | @cons location node entries live rest ih =>
    cases fuel with
    | zero => exact absurd enough (Nat.not_succ_le_zero _)
    | succ fuel =>
      rw [find, live, bind_some]
      split
      next same => simp only [find?_cons, same, decide_true, map_some]
      next other =>
        simp only [find?_cons, other, decide_false]
        exact ih (Nat.le_of_succ_le_succ enough)

/-- The search stops at the first node that is shared or has the tag. -/
theorem search_chain (chain : Chain heap (heap.follow link) entries) (enough : entries.length ≤ fuel) :
    ∃ passed left, entries = passed ++ left ∧
      search heap tid fuel link (heap.follow link) = some (linkAfter link passed, start left) ∧
      (∀ entry ∈ passed, entry.2.tid ≠ tid ∧ heap.counted entry.1 ≤ 1) ∧
      ∀ entry ∈ left.head?, 1 < heap.counted entry.1 ∨ entry.2.tid = tid := by
  induction entries generalizing link fuel with
  | nil =>
    refine ⟨[], [], rfl, ?_, fun _ none => absurd none not_mem_nil, fun _ none => absurd none (by simp)⟩
    rw [chain.target_eq]
    cases fuel <;> rfl
  | cons entry entries ih =>
    obtain ⟨location, load⟩ := entry
    have leads : heap.follow link = some location := chain.target_eq
    have rest : Chain heap (heap.follow (.next location)) entries :=
      @Chain.split _ heap link [(location, load)] entries chain
    obtain ⟨node, live, sameLoad⟩ : ∃ node, heap.node location = some node ∧ node.load = load := by
      rw [leads] at chain
      cases chain with
      | @cons _ node _ live _ => exact ⟨node, live, rfl⟩
    have count : (node.count > 1) ↔ 1 < heap.counted location := by
      rw [counted_of_node live]
      exact lt_iff_toNat_lt
    cases fuel with
    | zero => exact absurd enough (Nat.not_succ_le_zero _)
    | succ fuel =>
      have unfolded : search heap tid (fuel + 1) link (heap.follow link) =
          if node.count > 1 then some (link, some location)
          else if node.load.tid = tid then some (link, some location)
          else search heap tid fuel (.next location) node.next := by
        rw [leads, search, live, bind_some]
      have sameNext : heap.follow (.next location) = node.next := by rw [follow, live, bind_some]
      by_cases shared : node.count > 1
      · refine ⟨[], _, rfl, ?_, fun _ none => absurd none not_mem_nil, ?_⟩
        · rw [unfolded, if_pos shared]
          rfl
        · intro entry isFirst
          cases isFirst
          exact .inl (count.mp shared)
      by_cases same : node.load.tid = tid
      · refine ⟨[], _, rfl, ?_, fun _ none => absurd none not_mem_nil, ?_⟩
        · rw [unfolded, if_neg shared, if_pos same]
          rfl
        · intro entry isFirst
          cases isFirst
          exact .inr (sameLoad ▸ same)
      obtain ⟨passed, left, rfl, stops, others, atLeft⟩ :=
        ih rest (Nat.le_of_succ_le_succ enough)
      refine ⟨(location, load) :: passed, left, rfl, ?_, ?_, atLeft⟩
      · rw [unfolded, if_neg shared, if_neg same, ← sameNext, stops]
        rfl
      · intro entry mem
        rcases mem_cons.mp mem with rfl | later
        · exact ⟨sameLoad ▸ same, Nat.le_of_not_lt (mt count.mpr shared)⟩
        · exact others entry later

/-- The nodes in front of a tag are copied, and every list is left as it was. -/
theorem copyUntil_at {cur : Nat} (stands : At heap owner before (passed ++ (location, load) :: tail))
    (starts : start (passed ++ (location, load) :: tail) = some cur)
    (others : ∀ entry ∈ passed, entry.2.tid ≠ tid ∧ entry.2.data.length < 2 ^ 32 - 1) (same : load.tid = tid)
    (shared : 1 < heap.counted cur) (room : Roomy heap (locations (passed ++ (location, load) :: tail).tail))
    (enough : passed.length < fuel) :
    ∃ changed copies, copyUntil tid fuel heap (At.link owner before) cur =
        some (changed, At.link owner (before ++ copies), location) ∧
      At changed owner (before ++ copies) ((location, load) :: tail) ∧ 1 < changed.counted location ∧
      Roomy changed (locations tail) ∧ copies.map Prod.snd = passed.map Prod.snd ∧
      Changes heap changed owner (before ++ copies ++ (location, load) :: tail) := by
  induction passed generalizing heap before fuel cur with
  | nil =>
    obtain rfl : location = cur := some.inj starts
    obtain ⟨node, live, rfl, -, -⟩ := stands.node_first
    refine ⟨heap, [], ?_, ?_, shared, room, rfl, ?_⟩
    · cases fuel with
      | zero => exact absurd enough (Nat.lt_irrefl _)
      | succ fuel => rw [copyUntil, live, bind_some, if_pos same, append_nil]
    · rw [append_nil]
      exact stands
    · rw [append_nil]
      exact stands.unchanged
  | cons entry passed ih =>
    obtain ⟨cur, curLoad⟩ := entry
    cases starts
    obtain ⟨node, live, rfl, -, -⟩ := stands.node_first
    obtain ⟨ne, small⟩ := others _ mem_cons_self
    have restChain : Chain heap node.next (passed ++ (location, load) :: tail) :=
      stands.rest_chain live
    obtain ⟨next, starts⟩ : ∃ next, start (passed ++ (location, load) :: tail) = some next := by
      cases passed <;> exact ⟨_, rfl⟩
    have isNext : node.next = some next := restChain.target_eq.trans starts
    obtain ⟨moved, merge, roomy⟩ := stands.renewed live isNext room starts
    cases fuel with
    | zero => exact absurd enough (Nat.not_lt_zero _)
    | succ fuel =>
      have renewed := stands.renew live (fun other isOther => room other (mem_of_start (by
        rw [← isOther, isNext]
        exact starts))) node.load
      obtain ⟨changed, copies, copied, reached, sharedThere, roomyThere, sameLoads, changes⟩ :=
        ih moved starts (fun entry mem => others entry (mem_cons_of_mem _ mem)) merge
          roomy (Nat.lt_of_succ_lt_succ enough)
      refine ⟨changed, (heap.nodes.length, node.load) :: copies, ?_, ?_, sharedThere, roomyThere, ?_, ?_⟩
      · have count : node.count > 1 := by
          rw [counted_of_node live] at shared
          exact lt_iff_toNat_lt.mpr shared
        rw [copyUntil, live, bind_some, if_neg ne, if_pos count, createTagData, if_pos small,
          bind_some, isNext, bind_some]
        rw [isNext] at copied
        rw [append_assoc] at copied
        refine Eq.trans ?_ copied
        rw [At.link, At.link, linkAfter_append]
        rfl
      · rwa [append_assoc] at reached
      · rw [map_cons, map_cons, sameLoads]
      · rw [append_assoc, append_assoc] at changes
        rw [append_assoc]
        exact renewed.trans changes

/-- Where the writer is called for a tag: in front of it are nodes of this list only, copied or
not. -/
structure Found (heap : TagHeap Tid) (owner : Nat) (tid : Tid) (entries : List (Nat × TagData Tid))
    (preMerge : Bool) (merged : TagHeap Tid) (before : List (Nat × TagData Tid)) (location : Nat)
    (load : TagData Tid) (tail : List (Nat × TagData Tid)) : Prop where
  same : load.tid = tid
  loads : entries.map Prod.snd = before.map Prod.snd ++ load :: tail.map Prod.snd
  stands : At merged owner before ((location, load) :: tail)
  changes : Changes heap merged owner (before ++ (location, load) :: tail)
  once : preMerge = true -> merged = heap ∧ heap.counted location ≤ 1 ∧
    search heap tid heap.nodes.length (.head owner) (heap.follow (.head owner)) =
      some (At.link owner before, some location)
  shared : preMerge = false -> 1 < merged.counted location ∧ Roomy merged (locations tail)

/-- A traversal finds no tag, or calls the writer on it. -/
theorem cowTraverse_at (stands : At heap owner [] entries)
    (small : ∀ entry ∈ entries, entry.2.data.length < 2 ^ 32 - 1) (room : Roomy heap (locations entries))
    (writer : COWWriter Tid Out) :
    ((∀ entry ∈ entries, entry.2.tid ≠ tid) ∧ cowTraverse heap owner tid writer = some (heap, none)) ∨
      ∃ preMerge merged before location load tail,
        Found heap owner tid entries preMerge merged before location load tail ∧
        cowTraverse heap owner tid writer =
          (writer preMerge location (At.link owner before) merged).map fun result => (result.1, some result.2) := by
  have whole : Chain heap (heap.follow (.head owner)) entries := stands.chain
  have enough := whole.length_le
  obtain ⟨passed, left, rfl, searched, others, atLeft⟩ := @search_chain _ heap tid heap.nodes.length _ _ _ whole enough
  rw [length_append] at enough
  cases left with
  | nil =>
    left
    refine ⟨fun entry mem => ?_, ?_⟩
    · rw [append_nil] at mem
      exact (others entry mem).1
    · rw [cowTraverse, searched, bind_some]
      rfl
  | cons entry tail =>
    obtain ⟨cur, curLoad⟩ := entry
    have standsHere : At heap owner passed ((cur, curLoad) :: tail) := {
      counted := stands.counted
      valid := stands.valid
      chain := whole
      once := fun location mem => by
        obtain ⟨entry, isPassed, rfl⟩ := List.mem_map.mp mem
        exact (others entry isPassed).2 }
    obtain ⟨node, live, rfl, -, -⟩ := standsHere.node_first
    have count : node.count > 1 ↔ 1 < heap.counted cur := by
      rw [counted_of_node live]
      exact lt_iff_toNat_lt
    have unfolded : cowTraverse heap owner tid writer =
        if node.count > 1 then cowMerge heap tid writer (At.link owner passed) cur
        else (writer true cur (At.link owner passed) heap).map fun result => (result.1, some result.2) := by
      rw [cowTraverse, searched, bind_some]
      simp only [start, head?_cons, map_some, live, bind_some]
    by_cases merge : node.count > 1
    · have left := standsHere.follow_link
      rw [standsHere.leads] at left
      have looked := @find_chain _ heap tid heap.nodes.length _ _ _ left (by omega)
      cases within : ((cur, node.load) :: tail).find? fun entry => entry.2.tid = tid with
      | none =>
        left
        have absent := find?_eq_none.mp within
        refine ⟨fun entry mem => ?_, ?_⟩
        · rcases mem_append.mp mem with isPassed | isLeft
          · exact (others entry isPassed).1
          · simpa using absent entry isLeft
        · rw [unfolded, if_pos merge, cowMerge, looked, within]
          rfl
      | some entry =>
        right
        obtain ⟨location, load⟩ := entry
        obtain ⟨isTag, between, behind, split, notTag⟩ := find?_eq_some_iff_append.mp within
        rw [split] at standsHere
        have isTag : load.tid = tid := of_decide_eq_true isTag
        have starts : start (between ++ (location, load) :: behind) = some cur := by rw [← split]; rfl
        have length : ((cur, node.load) :: tail).length = between.length + (behind.length + 1) := by
          rw [split, length_append, length_cons]
        obtain ⟨changed, copies, copied, reached, shared, roomy, sameLoads, changes⟩ :=
          @copyUntil_at _ heap tid heap.nodes.length owner passed between behind location load _ cur
            standsHere starts (fun entry mem => by
            have isLeft : entry ∈ (cur, node.load) :: tail := by
              rw [split]
              exact mem_append_left _ mem
            exact ⟨by simpa using notTag entry mem, small entry (mem_append_right _ isLeft)⟩)
            isTag (count.mp merge) (fun other mem => room other (by
              rw [locations_append, split]
              exact mem_append_right _ (mem_of_mem_tail (by rwa [locations, map_tail] at mem))))
            (by omega)
        refine ⟨false, changed, passed ++ copies, location, load, behind, ?_, ?_⟩
        · exact {
            same := isTag
            loads := by
              rw [split, map_append, map_append, map_append, sameLoads, map_cons,
                append_assoc]
            stands := reached
            changes := changes
            once := fun none => absurd none Bool.noConfusion
            shared := fun _ => ⟨shared, roomy⟩ }
        · obtain ⟨found, foundLive, sameLoad, -, -⟩ := reached.node_first
          have both : found.load.tid = tid ∧ found.count > 1 := by
            rw [counted_of_node foundLive] at shared
            exact ⟨by rw [sameLoad]; exact isTag, lt_iff_toNat_lt.mpr shared⟩
          rw [unfolded, if_pos merge, cowMerge, looked, within, map_some, bind_some,
            if_neg (by simp), copied]
          simp only [bind_some, foundLive]
          rw [if_pos both]
    · right
      have isTag : node.load.tid = tid := (atLeft _ rfl).resolve_left (mt count.mpr merge)
      refine ⟨true, heap, passed, cur, node.load, tail, ?_, by rw [unfolded, if_neg merge]⟩
      exact {
        same := isTag
        loads := by rw [map_append, map_cons]
        stands := standsHere
        changes := standsHere.unchanged
        once := fun _ => ⟨rfl, Nat.le_of_not_lt (mt count.mpr merge), searched⟩
        shared := fun none => absurd none Bool.noConfusion }

end Ns3.Network.PacketTagList
