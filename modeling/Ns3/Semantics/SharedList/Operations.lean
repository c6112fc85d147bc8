import Ns3.Semantics.SharedList

/-!
# Operations on lists that share their tails

A list is changed behind a prefix of nodes that are its own: a node is bypassed, copied,
removed or put in front. `At` says where an operation stands, and `Changes` what it leaves: the
counts right, the other lists as they were, and its own list changed as asked.
-/

namespace Ns3.Semantics.SharedList

open List Option Heap Keeps

universe u

variable {Load : Type u}

namespace Heap

variable (heap : Heap Load)

/-- Lead a link past a node that others share. -/
def bypass (link : Link) (location : Nat) (next : Option Nat) : Heap Load :=
  ((heap.point link next).disown location).adopt next

/-- Lead a link to a node of its own instead of one that others share. -/
def renew (link : Link) (location : Nat) (next : Option Nat) (load : Load) : Heap Load :=
  (((heap.disown location).alloc ⟨next, 1, load⟩).adopt next).point link (some heap.nodes.length)

/-- Lead a link past a node of its own, and free the node. -/
def unlink (link : Link) (location : Nat) (next : Option Nat) : Heap Load :=
  (heap.point link next).free location

/-- Change what a node carries. -/
def reload (location : Nat) (load : Load) : Heap Load :=
  heap.modify location fun node => { node with load := load }

/-- Put a node in front of a list. -/
def prepend (owner : Nat) (load : Load) : Heap Load :=
  (heap.alloc ⟨heap.follow (.head owner), 1, load⟩).point (.head owner) (some heap.nodes.length)

/-- Lead the head of a list without nodes where another link leads. -/
def attach (owner : Nat) (target : Option Nat) : Heap Load :=
  (heap.point (.head owner) target).adopt target

end Heap

/-- A list consists of some nodes of its own, and the rest. -/
structure At (heap : Heap Load) (owner : Nat) (before rest : List (Nat × Load)) : Prop where
  counted : Counted heap
  valid : owner < heap.heads.length
  chain : Chain heap (heap.follow (.head owner)) (before ++ rest)
  once : ∀ location ∈ locations before, heap.counted location ≤ 1

/-- One more link may lead to each of some nodes. -/
def Roomy (heap : Heap Load) (locations : List Nat) : Prop :=
  ∀ location ∈ locations, heap.counted location + 1 < 2 ^ 32

/-- The lists after an operation on one of them. -/
structure Changes (heap changed : Heap Load) (owner : Nat) (entries : List (Nat × Load)) : Prop where
  counted : Counted changed
  length : changed.heads.length = heap.heads.length
  others : ∀ other ≠ owner, ∀ others, Chain heap (heap.follow (.head other)) others ->
    Chain changed (changed.follow (.head other)) others
  own : Chain changed (changed.follow (.head owner)) entries

theorem Changes.trans {heap middle changed : Heap Load} {owner : Nat} {entries continued : List (Nat × Load)}
    (first : Changes heap middle owner entries) (second : Changes middle changed owner continued) :
    Changes heap changed owner continued where
  counted := second.counted
  length := second.length.trans first.length
  others := fun other ne others chain =>
    second.others other ne others (first.others other ne others chain)
  own := second.own

theorem At.unchanged {heap : Heap Load} {owner : Nat} {before rest : List (Nat × Load)}
    (stands : At heap owner before rest) : Changes heap heap owner (before ++ rest) where
  counted := stands.counted
  length := rfl
  others := fun _ _ _ chain => chain
  own := stands.chain

namespace At

variable {heap changed : Heap Load} {owner : Nat} {before rest tail : List (Nat × Load)} {location : Nat}
  {load : Load} {node : Node Load}

/-- The link behind the nodes of its own. -/
abbrev link (owner : Nat) (before : List (Nat × Load)) : Link :=
  linkAfter (.head owner) before

section

variable (stands : At heap owner before rest)
include stands

theorem follow_link : Chain heap (heap.follow (link owner before)) rest :=
  stands.chain.split

theorem live_before (mem : location ∈ locations before) :
    ∃ node, heap.node location = some node := by
  refine stands.chain.live ?_
  rw [locations_append]
  exact mem_append_left _ mem

theorem link_valid : heap.Valid (link owner before) := by
  rcases linkAfter_eq (.head owner) before with ⟨same, -⟩ | ⟨location, mem, same⟩
  · rw [link, same]
    exact stands.valid
  · obtain ⟨node, live⟩ := stands.live_before mem
    rw [link, same]
    exact isSome_iff_exists.mpr ⟨node, live⟩

end

theorem link_ne_of_not_mem (outside : location ∉ locations before) : link owner before ≠ .next location := by
  intro isNext
  rcases linkAfter_eq (.head owner) before with ⟨same, -⟩ | ⟨source, mem, same⟩
  · exact Link.noConfusion (same.symm.trans isNext)
  · exact outside (Link.next.inj (same.symm.trans isNext) ▸ mem)

theorem disjoint (stands : At heap owner before rest) (mem : location ∈ locations rest) :
    location ∉ locations before := by
  have nodup := stands.chain.nodup
  rw [locations_append] at nodup
  exact fun again => (nodup_append.mp nodup).2.2 location again location mem rfl

/-- What an operation changes behind a prefix: the link, and a node that is of this list only. -/
theorem changes (stands : At heap owner before rest) (gone : List (Nat × Load)) (counted : Counted changed)
    (ofOwn : ∃ left, rest = gone ++ left) (goneOnce : ∀ location ∈ locations gone, heap.counted location ≤ 1)
    (length : changed.heads.length = heap.heads.length)
    (heads : ∀ other, link owner before ≠ .head other -> changed.heads[other]? = heap.heads[other]?)
    (nodes : Keeps (locations gone) (link owner before) heap changed) {continued : List (Nat × Load)}
    (continues : Chain changed (changed.follow (link owner before)) continued) :
    Changes heap changed owner (before ++ continued) where
  counted := counted
  length := length
  others := by
    intro other ne others chain
    obtain ⟨left, rfl⟩ := ofOwn
    have whole : Chain heap (heap.follow (.head owner)) ((before ++ gone) ++ left) := by
      rw [append_assoc]
      exact stands.chain
    have separate := whole.private_of_counted stands.counted (by
      rw [locations_append]
      exact fun location mem => (mem_append.mp mem).elim (stands.once location) (goneOnce location))
      chain (fun same => ne (Link.head.inj same).symm) fun _ same => Link.noConfusion same
    rw [locations_append] at separate
    have sameHead : changed.follow (.head other) = heap.follow (.head other) := by
      refine congrArg join (heads other fun isHead => ?_)
      rcases linkAfter_eq (.head owner) before with ⟨same, -⟩ | ⟨location, -, same⟩
      · exact ne (Link.head.inj (same.symm.trans isHead)).symm
      · exact Link.noConfusion (same.symm.trans isHead)
    rw [sameHead]
    exact nodes.chain chain fun location mem =>
      ⟨fun isGone => separate location (mem_append_right _ isGone) mem,
        link_ne_of_not_mem fun isBefore => separate location (mem_append_left _ isBefore) mem⟩
  own := by
    obtain ⟨left, rfl⟩ := ofOwn
    have survives : ∀ location ∈ locations before, location ∉ locations gone := fun location mem isGone =>
      stands.disjoint (by rw [locations_append]; exact mem_append_left _ isGone) mem
    refine stands.chain.rebuild ?_ ?_ (fun _ same => Link.noConfusion same) continues
    · rintro source ne (rfl | ⟨location, mem, rfl⟩)
      · exact congrArg join (heads owner (Ne.symm ne))
      · obtain ⟨node, live⟩ := stands.live_before mem
        obtain ⟨kept, keptLive, sameNext, -⟩ := nodes location (survives location mem) node live
        rw [follow, follow, live, keptLive, bind_some, bind_some, sameNext (Ne.symm ne)]
    · intro location mem node live
      obtain ⟨kept, keptLive, -, sameLoad⟩ := nodes location (survives location mem) node live
      exact ⟨kept, keptLive, sameLoad⟩

section

variable (stands : At heap owner before ((location, load) :: tail))
include stands

theorem rest_chain (live : heap.node location = some node) : Chain heap node.next tail := by
  have rest := stands.follow_link
  generalize heap.follow (link owner before) = target at rest
  cases rest with
  | @cons _ first _ isLive rest =>
    cases live.symm.trans isLive
    exact rest

/-- The rest behind a node, once the link may have changed and nodes may be gone. -/
theorem tail_kept
    (live : heap.node location = some node) {gone : List Nat} (onlyFirst : ∀ other ∈ gone, other = location)
    (keeps : Keeps gone (link owner before) heap changed) : Chain changed node.next tail := by
  have nodup := stands.follow_link.nodup
  rw [locations_cons, nodup_cons] at nodup
  refine keeps.chain (stands.rest_chain live) fun other mem => ⟨fun isGone => ?_, link_ne_of_not_mem ?_⟩
  · exact nodup.1 (onlyFirst other isGone ▸ mem)
  · exact stands.disjoint (mem_cons_of_mem _ mem)

theorem leads : heap.follow (link owner before) = some location := by
  have rest := stands.follow_link
  generalize heap.follow (link owner before) = target at rest
  cases rest
  rfl

theorem node_first :
    ∃ node, heap.node location = some node ∧ node.load = load ∧ 0 < node.count.toNat ∧
      ∀ next, node.next = some next -> (heap.node next).isSome = true ∧ next ≠ location := by
  have rest := stands.follow_link
  have leads := stands.leads
  have nodup := rest.nodup
  rw [leads] at rest
  cases rest with
  | @cons _ node _ live rest =>
    refine ⟨node, live, rfl, ?_, fun next isNext => ?_⟩
    · have pos := stands.counted.positive leads
      rwa [counted_of_node live] at pos
    · rw [isNext] at rest
      cases rest with
      | @cons _ second _ secondLive _ =>
        rw [secondLive]
        refine ⟨rfl, fun same => ?_⟩
        rw [locations_cons, nodup_cons] at nodup
        exact nodup.1 (same ▸ mem_cons_self)

theorem bypass (live : heap.node location = some node)
    (room : ∀ next, node.next = some next -> heap.counted next + 1 < 2 ^ 32) :
    Changes heap (heap.bypass (link owner before) location node.next) owner (before ++ tail) := by
  obtain ⟨first, isFirst, -, pos, nexts⟩ := stands.node_first
  cases live.symm.trans isFirst
  have kept : Keeps [] (link owner before) heap ((heap.point (link owner before) node.next).disown location) :=
    .trans .point .disown
  have keeps : Keeps [] (link owner before) heap (heap.bypass (link owner before) location node.next) :=
    kept.trans .adopt
  obtain ⟨pointed, isPointed, -⟩ := (point : Keeps [] (link owner before) heap
    (heap.point (link owner before) node.next)) location not_mem_nil node live
  have samePointed : pointed.count = node.count := by
    rw [Heap.node_point, if_neg (link_ne_of_not_mem (stands.disjoint mem_cons_self))] at isPointed
    exact congrArg Node.count (some.inj (isPointed.symm.trans live))
  have disowned (other : Nat) := @Heap.counted_disown _ _ _ other _ isPointed (samePointed ▸ pos)
  have nextLive : ∀ next, node.next = some next ->
      (((heap.point (link owner before) node.next).disown location).node next).isSome = true :=
    fun next isNext => kept.isSome not_mem_nil (nexts next isNext).1
  refine stands.changes [] ?_ ⟨_, rfl⟩ (fun _ none => absurd none not_mem_nil) ?_ ?_ keeps ?_
  · intro other
    have adopted := @Heap.counted_adopt _ _ other node.next nextLive fun next isNext => by
      have := room next isNext
      have := disowned next
      rw [Heap.counted_point] at this
      omega
    have lost := disowned other
    have moved := @Heap.pointers_point _ heap other node.next _ stands.link_valid
    have counts := stands.counted other
    rw [Heap.counted_point] at lost
    rw [stands.leads] at moved
    rw [Heap.bypass, Heap.pointers_adopt nextLive, Heap.pointers_disown isPointed]
    have same : (if some location = some other then 1 else 0) = if other = location then 1 else 0 := by
      simp only [some.injEq, eq_comm]
    omega
  · rw [Heap.bypass, Heap.heads_adopt]
    exact Heap.length_heads_point
  · intro other ne
    rw [Heap.bypass, Heap.heads_adopt]
    exact Heap.heads_point ne
  · rw [Heap.bypass, Heap.follow_adopt, Heap.follow_disown, Heap.follow_point stands.link_valid]
    exact stands.tail_kept live (fun _ none => absurd none not_mem_nil) keeps

end

section

variable (stands : At heap owner before ((location, load) :: tail)) (live : heap.node location = some node)
  (room : ∀ next, node.next = some next -> heap.counted next + 1 < 2 ^ 32) (replacement : Load)
include stands live

theorem next_live_renew (next : Nat) (isNext : node.next = some next) :
    (((heap.disown location).alloc ⟨node.next, 1, replacement⟩).node next).isSome = true := by
  obtain ⟨first, isFirst, -, -, nexts⟩ := stands.node_first
  cases live.symm.trans isFirst
  exact (disown.trans .alloc : Keeps [] (link owner before) heap _).isSome not_mem_nil (nexts next isNext).1

include room

/-- A copy is counted once, the node copied once less, and the node behind it once more. -/
theorem counted_renew (other : Nat) : (heap.renew (link owner before) location node.next replacement).counted other +
      (if other = location then 1 else 0) =
    heap.counted other + (if other = heap.nodes.length then 1 else 0) +
      if node.next = some other then 1 else 0 := by
  obtain ⟨first, isFirst, -, pos, nexts⟩ := stands.node_first
  cases live.symm.trans isFirst
  have length : (heap.disown location).nodes.length = heap.nodes.length := length_modify
  have disowned := @Heap.counted_disown _ _ _ other _ live pos
  have allocated := @Heap.counted_alloc _ (heap.disown location) other ⟨node.next, 1, replacement⟩
  have adopted := @Heap.counted_adopt _ _ other node.next (stands.next_live_renew live replacement)
    fun next isNext => by
      have := room next isNext
      have := @Heap.counted_disown _ _ _ next _ live pos
      have := @Heap.counted_alloc _ (heap.disown location) next ⟨node.next, 1, replacement⟩
      obtain ⟨isLive, -⟩ := nexts next isNext
      obtain ⟨old, oldLive⟩ := isSome_iff_exists.mp isLive
      have old : next ≠ (heap.disown location).nodes.length := by
        rw [length]
        exact Nat.ne_of_lt (lt_of_node oldLive)
      rw [if_neg old] at this
      omega
  rw [renew, counted_point, adopted, allocated, length]
  simp only [UInt32.toNat_one]
  omega

theorem renew : Changes heap (heap.renew (link owner before) location node.next replacement) owner
    (before ++ (heap.nodes.length, replacement) :: tail) := by
  have length : (heap.disown location).nodes.length = heap.nodes.length := Heap.length_modify
  have after : Keeps [] (link owner before) ((heap.disown location).alloc ⟨node.next, 1, replacement⟩)
      (heap.renew (link owner before) location node.next replacement) :=
    adopt.trans .point
  have keeps : Keeps [] (link owner before) heap (heap.renew (link owner before) location node.next replacement) :=
    (disown.trans .alloc).trans after
  have disownedValid : (heap.disown location).Valid (link owner before) :=
    Heap.valid_of_follow (Heap.follow_disown.trans stands.leads)
  have leads : (((heap.disown location).alloc ⟨node.next, 1, replacement⟩).adopt node.next).follow
      (link owner before) = some location := by
    rw [Heap.follow_adopt, Heap.follow_alloc disownedValid, Heap.follow_disown, stands.leads]
  have valid := Heap.valid_of_follow leads
  refine stands.changes [] ?_ ⟨_, rfl⟩ (fun _ none => absurd none not_mem_nil) ?_ ?_ keeps ?_
  · intro other
    have renewed := stands.counted_renew live room replacement other
    have moved := @Heap.pointers_point _ _ other (some heap.nodes.length) _ valid
    have counts := stands.counted other
    rw [leads, Heap.pointers_adopt (stands.next_live_renew live replacement), Heap.pointers_alloc,
      Heap.pointers_disown live] at moved
    have same : (if some location = some other then 1 else 0) = if other = location then 1 else 0 := by
      simp only [some.injEq, eq_comm]
    have fresh : (if some heap.nodes.length = some other then 1 else 0) =
        if other = heap.nodes.length then 1 else 0 := by
      simp only [some.injEq, eq_comm]
    rw [Heap.renew] at renewed ⊢
    simp only at moved
    omega
  · rw [Heap.renew, Heap.length_heads_point, Heap.heads_adopt]
    rfl
  · intro other ne
    rw [Heap.renew, Heap.heads_point ne, Heap.heads_adopt]
    rfl
  · obtain ⟨copy, isCopy, sameNext, sameLoad⟩ := after heap.nodes.length not_mem_nil
      ⟨node.next, 1, replacement⟩ (by rw [Heap.node_alloc, length, if_pos rfl])
    have outside : link owner before ≠ .next heap.nodes.length := link_ne_of_not_mem fun mem => by
      obtain ⟨old, oldLive⟩ := stands.live_before mem
      exact absurd (Heap.lt_of_node oldLive) (Nat.lt_irrefl _)
    have tail := stands.tail_kept live (fun _ none => absurd none not_mem_nil) keeps
    rw [Heap.renew] at isCopy tail ⊢
    rw [Heap.follow_point valid]
    have chain := Chain.cons isCopy (by rw [sameNext outside]; exact tail)
    rwa [sameLoad] at chain

end

/-- The list stands behind the copy of a shared node. -/
theorem renewed {next : Nat} (stands : At heap owner before ((location, load) :: rest))
    (live : heap.node location = some node)
    (isNext : node.next = some next) (room : Roomy heap (locations rest)) (starts : start rest = some next) :
    At (heap.renew (link owner before) location node.next load) owner (before ++ [(heap.nodes.length, load)]) rest ∧
      1 < (heap.renew (link owner before) location node.next load).counted next ∧
      Roomy (heap.renew (link owner before) location node.next load) (locations rest.tail) := by
  have nodup := stands.follow_link.nodup
  rw [locations_cons, nodup_cons] at nodup
  have roomNext : ∀ other, node.next = some other -> heap.counted other + 1 < 2 ^ 32 := fun other isOther =>
    room other (mem_of_start (starts.trans (isNext.symm.trans isOther)))
  have counts := stands.counted_renew live roomNext load
  have changes := stands.renew live roomNext load
  have fresh {other : Nat} (mem : other ∈ locations before ∨ other ∈ locations ((location, load) :: rest)) :
      other ≠ heap.nodes.length := by
    obtain ⟨old, oldLive⟩ := stands.chain.live (by rw [locations_append]; exact mem_append.mpr mem)
    exact Nat.ne_of_lt (lt_of_node oldLive)
  have nextMember := mem_of_start starts
  have nextLeads : heap.follow (.next location) = some next := by rw [follow, live, bind_some, isNext]
  refine ⟨⟨changes.counted, changes.length ▸ stands.valid, ?_, ?_⟩, ?_, ?_⟩
  · rw [append_assoc]
    exact changes.own
  · intro other mem
    have counted := counts other
    rw [locations_append] at mem
    rcases mem_append.mp mem with isBefore | isFresh
    · have := stands.once other isBefore
      have notNext : node.next ≠ some other := fun same =>
        stands.disjoint (mem_cons_of_mem _ nextMember) (some.inj (isNext.symm.trans same) ▸ isBefore)
      rw [if_neg (fresh (.inl isBefore)), if_neg notNext] at counted
      omega
    · obtain rfl := mem_singleton.mp isFresh
      have notNext : node.next ≠ some heap.nodes.length := fun same =>
        fresh (.inr (mem_cons_of_mem _ nextMember)) (some.inj (isNext.symm.trans same))
      rw [if_pos rfl, if_neg notNext, counted_fresh] at counted
      omega
  · have counted := counts next
    have := stands.counted.positive nextLeads
    have notFirst : next ≠ location := fun same => nodup.1 (by rw [← same]; exact nextMember)
    rw [if_pos isNext, if_neg notFirst] at counted
    omega
  · intro other mem
    obtain ⟨second, rest, rfl⟩ : ∃ second left, rest = second :: left := by
      cases rest with
      | nil => exact absurd starts (by simp [start])
      | cons second left => exact ⟨second, left, rfl⟩
    obtain rfl : second.1 = next := some.inj starts
    rw [locations_cons, nodup_cons] at nodup
    have inRest : other ∈ locations (second :: rest) := mem_cons_of_mem _ mem
    have notNext : node.next ≠ some other := fun same =>
      nodup.2.1 (by rw [some.inj (isNext.symm.trans same)]; exact mem)
    have := room other inRest
    have counted := counts other
    rw [if_neg notNext, if_neg (fresh (.inr (mem_cons_of_mem _ inRest)))] at counted
    omega

theorem unlink (stands : At heap owner before ((location, load) :: tail))
    (live : heap.node location = some node) (once : heap.counted location ≤ 1) :
    Changes heap (heap.unlink (link owner before) location node.next) owner (before ++ tail) := by
  obtain ⟨first, isFirst, -, pos, -⟩ := stands.node_first
  cases live.symm.trans isFirst
  have outside : link owner before ≠ .next location :=
    link_ne_of_not_mem (stands.disjoint mem_cons_self)
  have pointedLive : (heap.point (link owner before) node.next).node location = some node := by
    rw [Heap.node_point, if_neg outside, live]
  have keeps : Keeps [location] (link owner before) heap (heap.unlink (link owner before) location node.next) :=
    point.trans (.free mem_cons_self pointedLive)
  refine stands.changes [(location, load)] ?_ ⟨tail, rfl⟩ ?_ ?_ ?_ keeps ?_
  · intro other
    have freed := @Heap.counted_free _ _ _ other _ pointedLive
    have moved := @Heap.pointers_point _ heap other node.next _ stands.link_valid
    have released := @Heap.pointers_free _ _ _ other _ pointedLive
    have counts := stands.counted other
    rw [Heap.counted_point] at freed
    rw [stands.leads] at moved
    rw [Heap.counted_of_node live] at once
    have one : node.count.toNat = 1 := by omega
    have same : (if some location = some other then 1 else 0) =
        if other = location then node.count.toNat else 0 := by
      simp only [some.injEq, eq_comm, one]
    rw [Heap.unlink]
    omega
  · intro other mem
    obtain rfl := mem_singleton.mp mem
    exact once
  · exact Heap.length_heads_point
  · exact fun other ne => Heap.heads_point ne
  · have tail := stands.tail_kept live (fun other mem => mem_singleton.mp mem) keeps
    have leads : (heap.unlink (link owner before) location node.next).follow (link owner before) = node.next := by
      rw [Heap.unlink, Heap.follow_free pointedLive outside, Heap.follow_point stands.link_valid]
    rwa [leads]

theorem reload (stands : At heap owner before ((location, load) :: tail)) (once : heap.counted location ≤ 1)
    (replacement : Load) :
    Changes heap (heap.reload location replacement) owner (before ++ (location, replacement) :: tail) := by
  obtain ⟨node, live, -, -, -⟩ := stands.node_first
  have keeps : Keeps [location] (link owner before) heap (heap.reload location replacement) :=
    .modify (fun _ => rfl) fun stays => absurd mem_cons_self stays
  have leads : (heap.reload location replacement).follow (link owner before) = some location := by
    rw [Heap.reload, Heap.follow_modify, stands.leads]
    exact fun _ => rfl
  refine stands.changes [(location, load)] ?_ ⟨tail, rfl⟩ ?_ ?_ ?_ keeps ?_
  · intro other
    have pointers : (heap.reload location replacement).pointers other = heap.pointers other :=
      Heap.pointers_modify live rfl
    rw [pointers, ← stands.counted other, Heap.counted, Heap.reload, Heap.node_modify]
    split
    · rw [Option.map_map]
      rfl
    · rfl
  · intro other mem
    obtain rfl := mem_singleton.mp mem
    exact once
  · rfl
  · exact fun _ _ => rfl
  · rw [leads]
    refine @Chain.cons _ _ _ { node with load := replacement } _ ?_ ?_
    · rw [Heap.reload, Heap.node_modify, if_pos rfl, live]
      rfl
    · exact @tail_kept _ _ _ _ _ _ _ _ node stands live _ (fun other mem => mem_singleton.mp mem) keeps

theorem prepend (stands : At heap owner [] rest) (load : Load) :
    Changes heap (heap.prepend owner load) owner ((heap.nodes.length, load) :: rest) := by
  have valid : heap.Valid (.head owner) := stands.valid
  have keeps : Keeps [] (.head owner) heap (heap.prepend owner load) := alloc.trans .point
  refine stands.changes [] ?_ ⟨_, rfl⟩ (fun _ none => nomatch none) ?_ ?_ keeps ?_
  · intro other
    have moved := @Heap.pointers_point _ (heap.alloc ⟨heap.follow (.head owner), 1, load⟩) other
      (some heap.nodes.length) (.head owner) valid
    have counts := stands.counted other
    rw [Heap.follow_alloc valid, Heap.pointers_alloc] at moved
    rw [Heap.prepend, Heap.counted_point, Heap.counted_alloc]
    have fresh : (if some heap.nodes.length = some other then 1 else 0) =
        if other = heap.nodes.length then (1 : UInt32).toNat else 0 := by
      simp only [some.injEq, eq_comm, UInt32.toNat_one]
    simp only at moved ⊢
    omega
  · exact Heap.length_heads_point
  · exact fun other ne => Heap.heads_point ne
  · have leads : (heap.prepend owner load).follow (.head owner) = some heap.nodes.length :=
      Heap.follow_point valid
    have fresh : (heap.prepend owner load).node heap.nodes.length = some ⟨heap.follow (.head owner), 1, load⟩ := by
      rw [Heap.prepend, Heap.node_point, if_neg Link.noConfusion, Heap.node_alloc, if_pos rfl]
    change Chain _ ((heap.prepend owner load).follow (.head owner)) _
    rw [leads]
    exact .cons fresh (keeps.chain stands.chain fun _ _ => ⟨not_mem_nil, Link.noConfusion⟩)

/-- Give up a node that others share, and with it the rest of the list. -/
theorem abandon (stands : At heap owner [] ((location, load) :: tail)) :
    Changes heap ((heap.point (.head owner) none).disown location) owner [] := by
  obtain ⟨node, live, -, pos, -⟩ := stands.node_first
  have valid : heap.Valid (.head owner) := stands.valid
  have leads : heap.follow (.head owner) = some location := stands.leads
  have keeps : Keeps [] (.head owner) heap ((heap.point (.head owner) none).disown location) :=
    point.trans .disown
  refine stands.changes [] ?_ ⟨_, rfl⟩ (fun _ none => nomatch none) ?_ ?_ keeps ?_
  · intro other
    have disowned := @Heap.counted_disown _ (heap.point (.head owner) none) location other _ live pos
    have moved := @Heap.pointers_point _ heap other none _ valid
    have counts := stands.counted other
    have pointers : ((heap.point (.head owner) none).disown location).pointers other =
        (heap.point (.head owner) none).pointers other := pointers_disown live
    rw [counted_point] at disowned
    rw [leads] at moved
    have same : (if some location = some other then 1 else 0) = if other = location then 1 else 0 := by
      simp only [some.injEq, eq_comm]
    simp only [reduceCtorEq, if_false] at moved
    omega
  · exact length_heads_point
  · exact fun other ne => heads_point ne
  · have left : ((heap.point (.head owner) none).disown location).follow (.head owner) = none :=
      follow_disown.trans (follow_point valid)
    change Chain _ (((heap.point (.head owner) none).disown location).follow (.head owner)) _
    rw [left]
    exact .nil

theorem attach (stands : At heap owner [] []) {target : Option Nat} {entries : List (Nat × Load)}
    (chain : Chain heap target entries) (room : ∀ location, target = some location ->
      heap.counted location + 1 < 2 ^ 32) : Changes heap (heap.attach owner target) owner entries := by
  have valid : heap.Valid (.head owner) := stands.valid
  have leads : heap.follow (.head owner) = none := by
    have nothing := stands.chain
    generalize heap.follow (.head owner) = head at nothing
    cases nothing
    rfl
  have keeps : Keeps [] (.head owner) heap (heap.attach owner target) := point.trans .adopt
  have live : ∀ location, target = some location ->
      ((heap.point (.head owner) target).node location).isSome = true := by
    rintro location rfl
    cases chain with
    | @cons _ node _ live _ => exact isSome_iff_exists.mpr ⟨node, live⟩
  refine stands.changes [] ?_ ⟨_, rfl⟩ (fun _ none => nomatch none) ?_ ?_ keeps ?_
  · intro other
    have adopted := @Heap.counted_adopt _ _ other target live fun location isTarget => by
      exact room location isTarget
    have moved := @Heap.pointers_point _ heap other target _ valid
    have counts := stands.counted other
    rw [leads] at moved
    rw [Heap.attach, adopted, Heap.counted_point, Heap.pointers_adopt live]
    simp only [reduceCtorEq, if_false] at moved
    omega
  · rw [Heap.attach, Heap.heads_adopt]
    exact Heap.length_heads_point
  · intro other ne
    rw [Heap.attach, Heap.heads_adopt]
    exact Heap.heads_point ne
  · have attached : (heap.attach owner target).follow (.head owner) = target := by
      rw [Heap.attach, Heap.follow_adopt, Heap.follow_point valid]
    change Chain _ ((heap.attach owner target).follow (.head owner)) _
    rw [attached]
    exact keeps.chain chain fun _ _ => ⟨not_mem_nil, Link.noConfusion⟩

end At

end Ns3.Semantics.SharedList
