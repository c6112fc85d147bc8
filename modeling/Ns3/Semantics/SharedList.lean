import Mathlib.Algebra.Group.Nat.Defs
import Mathlib.Data.List.NodupEquivFin

/-!
# Lists that share their tails

A `Heap` holds linked nodes with counts of the links to them, and the heads of several lists, which
may share nodes. `Chain` reads a list off, and `Counted` says that the counts are right: a node
reached through nodes counted once is in no other list, `Chain.private_of_counted`.
-/

namespace Ns3.Semantics.SharedList

open List Option Nat

universe u

structure Node (Load : Type u) where
  next : Option Nat
  /-- The number of links to this node. -/
  count : UInt32
  load : Load
  deriving DecidableEq

/-- The nodes by location, `none` once freed, and the heads by list. -/
structure Heap (Load : Type u) where
  nodes : List (Option (Node Load))
  heads : List (Option Nat)
  deriving DecidableEq

/-- A link that can be written: the head of a list, or the next link of a node. -/
inductive Link where
  | head (owner : Nat)
  | next (location : Nat)
  deriving DecidableEq

variable {Load : Type u}

namespace Heap

variable (heap : Heap Load)

variable (location : Nat)

def node : Option (Node Load) :=
  heap.nodes[location]?.join

def put (node : Option (Node Load)) : Heap Load :=
  { heap with nodes := heap.nodes.set location node }

def modify (change : Node Load -> Node Load) : Heap Load :=
  heap.put location ((heap.node location).map change)

def free : Heap Load :=
  heap.put location none

/-- A new node at the next location. -/
def alloc (node : Node Load) : Heap Load :=
  { heap with nodes := heap.nodes ++ [some node] }

/-- Where a link leads. -/
def follow : Link -> Option Nat
  | .head owner => heap.heads[owner]?.join
  | .next location => (heap.node location).bind Node.next

def point (link : Link) (target : Option Nat) : Heap Load :=
  match link with
  | .head owner => { heap with heads := heap.heads.set owner target }
  | .next location => heap.modify location fun node => { node with next := target }

/-- A new list. -/
def push (target : Option Nat) : Heap Load :=
  { heap with heads := heap.heads ++ [target] }

/-- How many links lead to a location. -/
def pointers : Nat :=
  (heap.heads.countP fun head => head = some location) +
    heap.nodes.countP fun node => node.bind Node.next = some location

/-- What a node says about the number of links to it. -/
def counted : Nat :=
  ((heap.node location).map fun node => node.count.toNat).getD 0

/-- A link that is there. -/
def Valid : Link -> Prop
  | .head owner => owner < heap.heads.length
  | .next location => (heap.node location).isSome = true

variable {heap : Heap Load} {location other : Nat} {node : Node Load} {target : Option Nat} {link : Link}
  {replacement : Option (Node Load)} {Entry : Type u}

section

variable (live : heap.node location = some node)
include live

theorem lt_of_node : location < heap.nodes.length := by
  by_contra beyond
  rw [Heap.node, getElem?_eq_none (Nat.le_of_not_lt beyond)] at live
  exact absurd live (by simp)

theorem getElem_of_node : heap.nodes[location]? = some (some node) :=
  join_eq_some_iff.mp live

theorem node_put :
    (heap.put location replacement).node other = if other = location then replacement else heap.node other := by
  split
  next same => rw [same, Heap.node, put, getElem?_set_self (lt_of_node live), join_some]
  next ne => rw [Heap.node, put, getElem?_set_ne (Ne.symm ne), ← Heap.node]

end

theorem node_put_of_ne (ne : other ≠ location) : (heap.put location replacement).node other = heap.node other := by
  rw [Heap.node, put, getElem?_set_ne (Ne.symm ne), ← Heap.node]

theorem node_free_self : (heap.free location).node location = none := by
  rw [Heap.node, free, put, getElem?_set, if_pos rfl]
  split <;> rfl

variable {change : Node Load -> Node Load}

theorem node_modify : (heap.modify location change).node other =
    if other = location then (heap.node other).map change else heap.node other := by
  cases live : heap.node location with
  | some node =>
    rw [modify, node_put live]
    split
    next same => rw [same, live]
    next => rfl
  | none =>
    rw [modify, Heap.node, put, getElem?_set]
    split
    next same =>
      subst same
      rw [if_pos rfl, live]
      split <;> rfl
    next ne => rw [if_neg (Ne.symm ne), ← Heap.node]

theorem node_free (live : heap.node location = some node) :
    (heap.free location).node other = if other = location then none else heap.node other :=
  node_put live

theorem node_alloc : (heap.alloc node).node other =
    if other = heap.nodes.length then some node else heap.node other := by
  rw [Heap.node, alloc]
  split
  next same =>
    subst same
    rw [getElem?_append_right (Nat.le_refl _), Nat.sub_self]
    rfl
  next ne =>
    rcases Nat.lt_or_ge other heap.nodes.length with old | beyond
    · rw [getElem?_append_left old, ← Heap.node]
    · rw [getElem?_append_right beyond, Heap.node, getElem?_eq_none beyond,
        getElem?_eq_none (by simp only [length_singleton]; omega)]

theorem node_point : (heap.point link target).node other =
    if link = .next other then (heap.node other).map fun node => { node with next := target }
    else heap.node other := by
  cases link with
  | head owner => rw [if_neg Link.noConfusion]; rfl
  | next location =>
    rw [point, node_modify]
    by_cases same : other = location
    · rw [if_pos same, if_pos (congrArg Link.next same.symm)]
    · rw [if_neg same, if_neg fun equal => same (Link.next.inj equal).symm]

theorem node_fresh : heap.node heap.nodes.length = none := by
  rw [Heap.node, getElem?_eq_none (le_refl _)]
  rfl

variable {owner : Nat} {first : Option Nat}

theorem heads_point (ne : link ≠ .head owner) : (heap.point link target).heads[owner]? = heap.heads[owner]? := by
  cases link with
  | head source => exact getElem?_set_ne fun same => ne (congrArg Link.head same)
  | next location => rfl

@[simp]
theorem length_heads_point : (heap.point link target).heads.length = heap.heads.length := by
  cases link with
  | head owner => exact length_set
  | next location => rfl

theorem follow_point (valid : heap.Valid link) : (heap.point link target).follow link = target := by
  cases link with
  | head owner => rw [follow, point, getElem?_set_self valid, join_some]
  | next location =>
    obtain ⟨node, live⟩ := isSome_iff_exists.mp valid
    rw [follow, node_point, if_pos rfl, live]
    rfl

theorem valid_of_follow (leads : heap.follow link = some location) : heap.Valid link := by
  cases link with
  | head owner =>
    by_contra beyond
    rw [follow, getElem?_eq_none (Nat.le_of_not_lt beyond)] at leads
    exact absurd leads (by simp)
  | next source =>
    obtain ⟨node, live, -⟩ := bind_eq_some_iff.mp leads
    exact isSome_iff_exists.mpr ⟨node, live⟩

/-! ## Counting links -/

theorem countP_set {property : Entry -> Bool} {entries : List Entry} {index : Nat}
    {old new : Entry} (present : entries[index]? = some old) :
    (entries.set index new).countP property + (if property old then 1 else 0) =
      entries.countP property + (if property new then 1 else 0) := by
  obtain ⟨bound, isOld⟩ := List.getElem?_eq_some_iff.mp present
  have pos : property old = true -> 0 < entries.countP property := fun holds =>
    countP_pos_iff.mpr ⟨old, mem_of_getElem? present, holds⟩
  rw [List.countP_set bound, isOld]
  split
  next holds =>
    have := pos holds
    omega
  next => omega

theorem pointers_put (live : heap.node location = some node) :
    (heap.put location replacement).pointers other + (if node.next = some other then 1 else 0) =
      heap.pointers other + (if replacement.bind Node.next = some other then 1 else 0) := by
  have counts := @countP_set _ (fun node : Option (Node Load) => decide (node.bind Node.next = some other))
    _ _ _ replacement (getElem_of_node live)
  simp only [decide_eq_true_eq, bind_some] at counts
  simp only [pointers, put]
  omega

theorem pointers_point (valid : heap.Valid link) :
    (heap.point link target).pointers other + (if heap.follow link = some other then 1 else 0) =
      heap.pointers other + (if target = some other then 1 else 0) := by
  cases link with
  | head owner =>
    have present : heap.heads[owner]? = some heap.heads[owner] := getElem?_eq_getElem valid
    have counts := @countP_set _ (fun head : Option Nat => decide (head = some other)) _ _ _ target present
    simp only [decide_eq_true_eq] at counts
    simp only [pointers, point, follow, present, join_some]
    omega
  | next source =>
    obtain ⟨node, live⟩ := isSome_iff_exists.mp valid
    have counts := @pointers_put _ _ _ other _ (some { node with next := target }) live
    rw [follow, point, modify, live]
    exact counts

theorem pointers_modify (live : heap.node location = some node) (sameNext : (change node).next = node.next) :
    (heap.modify location change).pointers other = heap.pointers other := by
  have counts := @pointers_put _ _ _ other _ (some (change node)) live
  rw [bind_some, sameNext] at counts
  rw [modify, live, map_some]
  omega

theorem pointers_free (live : heap.node location = some node) :
    (heap.free location).pointers other + (if node.next = some other then 1 else 0) = heap.pointers other := by
  have counts := @pointers_put _ _ _ other _ none live
  exact counts

theorem pointers_alloc : (heap.alloc node).pointers other =
    heap.pointers other + (if node.next = some other then 1 else 0) := by
  simp only [pointers, alloc, countP_append, countP_singleton, decide_eq_true_eq, bind_some]
  omega

theorem pointers_push : (heap.push target).pointers other =
    heap.pointers other + (if target = some other then 1 else 0) := by
  simp only [pointers, push, countP_append, countP_singleton, decide_eq_true_eq]
  omega

theorem counted_of_node (live : heap.node location = some node) : heap.counted location = node.count.toNat := by
  rw [counted, live]
  rfl

theorem two_le_countP {property : Entry -> Bool} {entries : List Entry} {first second : Nat}
    {x y : Entry} (ne : first ≠ second) (atFirst : entries[first]? = some x) (holdsFirst : property x)
    (atSecond : entries[second]? = some y) (holdsSecond : property y) : 2 ≤ entries.countP property := by
  wlog less : first < second generalizing first second x y
  · exact this ne.symm atSecond holdsSecond atFirst holdsFirst (by omega)
  rw [← take_append_drop second entries, countP_append]
  have before : 0 < (entries.take second).countP property :=
    countP_pos_iff.mpr ⟨x, mem_of_getElem? (by rwa [getElem?_take_of_lt less]), holdsFirst⟩
  have after : 0 < (entries.drop second).countP property :=
    countP_pos_iff.mpr ⟨y, @mem_of_getElem? _ _ 0 _ (by rwa [getElem?_drop]), holdsSecond⟩
  omega

theorem getElem_of_follow_head (leads : heap.follow (.head owner) = some location) :
    heap.heads[owner]? = some (some location) :=
  join_eq_some_iff.mp leads

theorem getElem_of_follow_next {source : Nat} (leads : heap.follow (.next source) = some location) :
    ∃ node, heap.nodes[source]? = some (some node) ∧ node.next = some location := by
  obtain ⟨node, live, isNext⟩ := bind_eq_some_iff.mp leads
  exact ⟨node, getElem_of_node live, isNext⟩

/-- A node that changes only its count. -/
def recount (change : UInt32 -> UInt32) (node : Node Load) : Node Load :=
  { node with count := change node.count }

/-- One more link to a node, if a link leads to one. -/
def adopt (heap : Heap Load) (target : Option Nat) : Heap Load :=
  match target with
  | none => heap
  | some location => heap.modify location (recount fun count => count + 1)

/-- One link less to a node. -/
def disown (heap : Heap Load) (location : Nat) : Heap Load :=
  heap.modify location (recount fun count => count - 1)

theorem counted_point : (heap.point link target).counted other = heap.counted other := by
  rw [counted, node_point]
  split
  · rw [Option.map_map]
    rfl
  · rfl

theorem counted_alloc : (heap.alloc node).counted other =
    heap.counted other + (if other = heap.nodes.length then node.count.toNat else 0) := by
  rw [counted, counted, node_alloc]
  split
  next fresh =>
    rw [fresh, node_fresh]
    exact (zero_add _).symm
  next => rfl

theorem counted_free (live : heap.node location = some node) :
    (heap.free location).counted other + (if other = location then node.count.toNat else 0) = heap.counted other := by
  rw [counted, counted, node_free live]
  split
  next same =>
    rw [same, live]
    exact zero_add _
  next => rfl

theorem counted_disown (live : heap.node location = some node) (pos : 0 < node.count.toNat) :
    (heap.disown location).counted other + (if other = location then 1 else 0) = heap.counted other := by
  rw [counted, counted, disown, node_modify]
  split
  next same =>
    have one : (1 : UInt32) ≤ node.count := UInt32.le_iff_toNat_le.mpr pos
    rw [same, live]
    simp only [map_some, getD_some, recount, UInt32.toNat_sub_of_le _ _ one, UInt32.toNat_one]
    omega
  next => rfl

theorem counted_adopt (live : ∀ location, target = some location -> (heap.node location).isSome)
    (room : ∀ location, target = some location -> heap.counted location + 1 < 2 ^ 32) :
    (heap.adopt target).counted other = heap.counted other + (if target = some other then 1 else 0) := by
  cases target with
  | none => rfl
  | some location =>
    obtain ⟨node, isLive⟩ := isSome_iff_exists.mp (live location rfl)
    have fits := room location rfl
    rw [counted_of_node isLive] at fits
    rw [counted, counted, adopt, node_modify]
    by_cases same : other = location
    · rw [if_pos same, same, isLive, if_pos rfl]
      simp only [map_some, getD_some, recount, UInt32.toNat_add, UInt32.toNat_one]
      omega
    · rw [if_neg same, if_neg fun equal => same (some.inj equal).symm, add_zero]

theorem follow_modify (sameNext : ∀ node, (change node).next = node.next) :
    (heap.modify location change).follow link = heap.follow link := by
  cases link with
  | head owner => rfl
  | next source =>
    rw [follow, follow, node_modify]
    split
    · cases heap.node source with
      | none => rfl
      | some node => exact sameNext node
    · rfl

theorem follow_disown : (heap.disown location).follow link = heap.follow link :=
  follow_modify fun _ => rfl

theorem follow_adopt : (heap.adopt target).follow link = heap.follow link := by
  cases target with
  | none => rfl
  | some location => exact follow_modify fun _ => rfl

theorem follow_alloc (valid : heap.Valid link) : (heap.alloc node).follow link = heap.follow link := by
  cases link with
  | head owner => rfl
  | next location =>
    obtain ⟨old, live⟩ := isSome_iff_exists.mp valid
    rw [follow, follow, node_alloc, if_neg (Nat.ne_of_lt (lt_of_node live))]

theorem follow_free (live : heap.node location = some node) (ne : link ≠ .next location) :
    (heap.free location).follow link = heap.follow link := by
  cases link with
  | head owner => rfl
  | next source =>
    rw [follow, follow, node_free live, if_neg fun same => ne (congrArg Link.next same)]

@[simp]
theorem length_modify : (heap.modify location change).nodes.length = heap.nodes.length :=
  length_set

theorem heads_adopt : (heap.adopt target).heads = heap.heads := by
  cases target <;> rfl

theorem point_point_head {second : Option Nat} :
    (heap.point (.head owner) first).point (.head owner) second = heap.point (.head owner) second := by
  rw [point, point, point, set_set]

theorem point_follow_head (valid : heap.Valid (.head owner)) :
    heap.point (.head owner) (heap.follow (.head owner)) = heap := by
  have bound : owner < heap.heads.length := valid
  have same : heap.follow (.head owner) = heap.heads[owner] := by
    rw [follow, getElem?_eq_getElem bound, join_some]
  rw [same, point, set_getElem_self]

theorem follow_push_old (old : owner < heap.heads.length) :
    (heap.push target).follow (.head owner) = heap.follow (.head owner) := by
  rw [follow, follow, push, getElem?_append_left old]

theorem follow_push_new : (heap.push target).follow (.head heap.heads.length) = target := by
  rw [follow, push, getElem?_append_right (Nat.le_refl _), Nat.sub_self]
  rfl

theorem point_push : (heap.push first).point (.head heap.heads.length) target = heap.push target := by
  rw [point, push, push, set_append_right _ _ (Nat.le_refl _), Nat.sub_self, set_cons_zero]

theorem counted_disown_le (live : heap.node location = some node) (pos : 0 < node.count.toNat) :
    (heap.disown location).counted other ≤ heap.counted other := by
  have := @counted_disown _ _ _ other _ live pos
  omega

theorem counted_free_le (live : heap.node location = some node) :
    (heap.free location).counted other ≤ heap.counted other := by
  have := @counted_free _ _ _ other _ live
  omega

theorem free_disown : (heap.disown location).free location = heap.free location := by
  rw [free, free, disown, modify, put, put, put, set_set]

theorem free_disown_comm (ne : other ≠ location) :
    (heap.disown location).free other = (heap.free other).disown location := by
  have same : (heap.free other).node location = heap.node location := node_put_of_ne (Ne.symm ne)
  rw [disown, disown, modify, modify, same, free, free, put, put, put, put, set_comm _ _ ne]

theorem pointers_disown (live : heap.node location = some node) :
    (heap.disown location).pointers other = heap.pointers other :=
  pointers_modify live rfl

theorem pointers_adopt (live : ∀ location, target = some location -> (heap.node location).isSome) :
    (heap.adopt target).pointers other = heap.pointers other := by
  cases target with
  | none => rfl
  | some location =>
    obtain ⟨node, isLive⟩ := isSome_iff_exists.mp (live location rfl)
    exact pointers_modify isLive rfl

theorem two_le_pointers {first second : Link} (ne : first ≠ second)
    (leadsFirst : heap.follow first = some location) (leadsSecond : heap.follow second = some location) :
    2 ≤ heap.pointers location := by
  have headCounted {owner : Nat} (leads : heap.follow (.head owner) = some location) :
      0 < heap.heads.countP fun head => head = some location :=
    countP_pos_iff.mpr ⟨_, mem_of_getElem? (getElem_of_follow_head leads), decide_eq_true rfl⟩
  have nextCounted {source : Nat} (leads : heap.follow (.next source) = some location) :
      0 < heap.nodes.countP fun node => node.bind Node.next = some location := by
    obtain ⟨node, present, isNext⟩ := getElem_of_follow_next leads
    exact countP_pos_iff.mpr ⟨_, mem_of_getElem? present, decide_eq_true isNext⟩
  rw [pointers]
  cases first with
  | head owner =>
    have := headCounted leadsFirst
    cases second with
    | head other =>
      have := @two_le_countP _ (fun head : Option Nat => decide (head = some location)) _ _ _ _ _
        (fun same => ne (congrArg Link.head same)) (getElem_of_follow_head leadsFirst)
        (decide_eq_true rfl) (getElem_of_follow_head leadsSecond) (decide_eq_true rfl)
      omega
    | next source =>
      have := nextCounted leadsSecond
      omega
  | next source =>
    have := nextCounted leadsFirst
    cases second with
    | head other =>
      have := headCounted leadsSecond
      omega
    | next other =>
      obtain ⟨node, present, isNext⟩ := getElem_of_follow_next leadsFirst
      obtain ⟨otherNode, otherPresent, otherNext⟩ := getElem_of_follow_next leadsSecond
      have := @two_le_countP _ (fun node : Option (Node Load) => decide (node.bind Node.next = some location))
        _ _ _ _ _ (fun same => ne (congrArg Link.next same)) present (decide_eq_true isNext)
        otherPresent (decide_eq_true otherNext)
      omega

end Heap

/-! ## Chains -/

/-- The counts are right: a node's count is the number of links to it, and no link leads
elsewhere. -/
def Counted (heap : Heap Load) : Prop :=
  ∀ location, heap.counted location = heap.pointers location

variable {heap : Heap Load} {link : Link} {location : Nat} {entries first second : List (Nat × Load)}

theorem Counted.positive (counted : Counted heap)
    (leads : heap.follow link = some location) : 0 < heap.counted location := by
  have moved := @Heap.pointers_point _ heap location none _ (Heap.valid_of_follow leads)
  rw [leads, if_pos rfl, if_neg (by simp)] at moved
  rw [counted location]
  omega

theorem counted_fresh : heap.counted heap.nodes.length = 0 := by
  rw [Heap.counted, Heap.node_fresh]
  rfl

/-- What is read along the links from one on. -/
inductive Chain (heap : Heap Load) : Option Nat -> List (Nat × Load) -> Prop where
  | nil : Chain heap none []
  | cons {location node entries} (live : heap.node location = some node)
      (rest : Chain heap node.next entries) : Chain heap (some location) ((location, node.load) :: entries)

/-- The locations of a chain. -/
def locations (entries : List (Nat × Load)) : List Nat :=
  entries.map Prod.fst

/-- Where entries start. -/
def start (entries : List (Nat × Load)) : Option Nat :=
  entries.head?.map Prod.fst

/-- The link after some entries, from a link on. -/
def linkAfter : Link -> List (Nat × Load) -> Link
  | link, [] => link
  | _, (location, _) :: entries => linkAfter (.next location) entries

@[simp]
theorem locations_cons {entry : Nat × Load} : locations (entry :: entries) = entry.1 :: locations entries :=
  rfl

@[simp]
theorem locations_append : locations (first ++ second) = locations first ++ locations second :=
  map_append

theorem mem_of_start (starts : start entries = some location) : location ∈ locations entries := by
  obtain ⟨entry, isFirst, rfl⟩ := map_eq_some_iff.mp starts
  exact List.mem_map_of_mem (mem_of_head? isFirst)

theorem linkAfter_append : linkAfter link (first ++ second) = linkAfter (linkAfter link first) second := by
  induction first generalizing link with
  | nil => rfl
  | cons entry first ih => exact ih

theorem linkAfter_eq (link : Link) (entries : List (Nat × Load)) : linkAfter link entries = link ∧ entries = [] ∨
    ∃ location ∈ locations entries, linkAfter link entries = .next location := by
  induction entries generalizing link with
  | nil => exact .inl ⟨rfl, rfl⟩
  | cons entry entries ih =>
    right
    rcases ih (.next entry.1) with ⟨same, -⟩ | ⟨location, mem, same⟩
    · exact ⟨entry.1, mem_cons_self, same⟩
    · exact ⟨location, mem_cons_of_mem _ mem, same⟩

namespace Chain

variable {heap changed : Heap Load} {target : Option Nat} {link : Link}
  {entries before rest : List (Nat × Load)} {location : Nat} {node : Node Load}

section

variable (chain : Chain heap target entries)
include chain

theorem unique {others : List (Nat × Load)}
    (other : Chain heap target others) : entries = others := by
  induction chain generalizing others with
  | nil =>
    cases other
    rfl
  | @cons location node entries live rest ih =>
    cases other with
    | @cons _ otherNode _ otherLive otherRest =>
      cases live.symm.trans otherLive
      rw [ih otherRest]

theorem target_eq : target = start entries := by
  cases chain <;> rfl

/-- A chain is read off where its own nodes are unchanged. -/
theorem frame
    (same : ∀ location ∈ locations entries, ∀ node, heap.node location = some node ->
      ∃ kept, changed.node location = some kept ∧ kept.next = node.next ∧ kept.load = node.load) :
    Chain changed target entries := by
  induction chain with
  | nil => exact .nil
  | @cons location node entries live rest ih =>
    obtain ⟨kept, keptLive, sameNext, sameLoad⟩ := same location mem_cons_self node live
    have tail := ih fun other mem => same other (mem_cons_of_mem _ mem)
    rw [← sameLoad]
    exact .cons keptLive (sameNext ▸ tail)

theorem push {head : Option Nat} : Chain (heap.push head) target entries :=
  chain.frame fun _ _ node live => ⟨node, live, rfl, rfl⟩

end

theorem split (chain : Chain heap (heap.follow link) (before ++ rest)) :
    Chain heap (heap.follow (linkAfter link before)) rest := by
  induction before generalizing link with
  | nil => exact chain
  | cons entry before ih =>
    obtain ⟨location, load⟩ := entry
    refine @ih (.next location) ?_
    generalize heap.follow link = target at chain
    cases chain with
    | @cons _ node _ live tail =>
      rw [Heap.follow, live]
      exact tail

theorem node_of_mem (chain : Chain heap target entries) {entry : Nat × Load} (mem : entry ∈ entries) :
    ∃ node, heap.node entry.1 = some node ∧ node.load = entry.2 := by
  induction chain with
  | nil => cases mem
  | @cons first node entries live rest ih =>
    rcases mem_cons.mp mem with rfl | later
    · exact ⟨node, live, rfl⟩
    · exact ih later

theorem live (chain : Chain heap target entries) (mem : location ∈ locations entries) :
    ∃ node, heap.node location = some node := by
  obtain ⟨entry, within, rfl⟩ := List.mem_map.mp mem
  obtain ⟨node, live, -⟩ := chain.node_of_mem within
  exact ⟨node, live⟩

/-- Some link of the chain leads to each of its nodes. -/
theorem link_to (chain : Chain heap (heap.follow link) entries) (mem : location ∈ locations entries) :
    ∃ source, heap.follow source = some location ∧
      (source = link ∨ ∃ earlier ∈ locations entries, source = .next earlier) := by
  induction entries generalizing link with
  | nil => cases mem
  | cons entry entries ih =>
    obtain ⟨first, load⟩ := entry
    have rest : Chain heap (heap.follow (.next first)) entries := @split _ heap link [(first, load)] entries chain
    rcases mem_cons.mp mem with rfl | later
    · refine ⟨link, ?_, .inl rfl⟩
      generalize heap.follow link = target at chain
      cases chain
      rfl
    · obtain ⟨source, leads, isFirst | ⟨earlier, within, same⟩⟩ := ih rest later
      · exact ⟨source, leads, .inr ⟨first, mem_cons_self, isFirst⟩⟩
      · exact ⟨source, leads, .inr ⟨earlier, mem_cons_of_mem _ within, same⟩⟩

theorem suffix (chain : Chain heap target entries) (mem : location ∈ locations entries) :
    ∃ tail, Chain heap (some location) tail ∧ tail.length ≤ entries.length := by
  induction chain with
  | nil => cases mem
  | @cons first node entries live rest ih =>
    rcases mem_cons.mp mem with rfl | later
    · exact ⟨_, .cons live rest, le_refl _⟩
    · obtain ⟨tail, chain, shorter⟩ := ih later
      exact ⟨tail, chain, le_succ_of_le shorter⟩

theorem nodup (chain : Chain heap target entries) : (locations entries).Nodup := by
  induction chain with
  | nil => exact nodup_nil
  | @cons first node entries live rest ih =>
    refine nodup_cons.mpr ⟨fun again => ?_, ih⟩
    -- A chain from a node that came again would be shorter than itself.
    obtain ⟨tail, shortcut, shorter⟩ := rest.suffix again
    obtain rfl := shortcut.unique (.cons live rest)
    exact not_succ_le_self _ shorter

theorem length_le (chain : Chain heap target entries) : entries.length ≤ heap.nodes.length := by
  have bounded : locations entries ⊆ range heap.nodes.length := by
    intro location mem
    obtain ⟨node, live⟩ := chain.live mem
    exact mem_range.mpr (Heap.lt_of_node live)
  have := (subperm_of_subset chain.nodup bounded).length_le
  rwa [locations, length_map, length_range] at this

/-- Nodes that are counted once, from a link that is not of another list on, are not in the other
list. -/
theorem private_of_counted (counted : Counted heap) {other : Nat} {others : List (Nat × Load)}
    (chain : Chain heap (heap.follow link) (before ++ rest))
    (once : ∀ location ∈ locations before, heap.counted location ≤ 1)
    (otherChain : Chain heap (heap.follow (.head other)) others) (ne : link ≠ .head other)
    (outside : ∀ location, link = .next location -> location ∉ locations others) :
    ∀ location ∈ locations before, location ∉ locations others := by
  induction before generalizing link with
  | nil => exact fun _ mem => nomatch mem
  | cons entry before ih =>
    obtain ⟨first, load⟩ := entry
    have leads : heap.follow link = some first := by
      generalize heap.follow link = target at chain
      cases chain
      rfl
    have apart : first ∉ locations others := by
      intro shared
      obtain ⟨source, alsoLeads, isFirst⟩ := otherChain.link_to shared
      have differs : link ≠ source := by
        rintro rfl
        rcases isFirst with same | ⟨earlier, within, same⟩
        · exact ne same
        · exact outside earlier same within
      have := Heap.two_le_pointers differs leads alsoLeads
      have := counted first
      have := once first mem_cons_self
      omega
    have restChain : Chain heap (heap.follow (.next first)) (before ++ rest) :=
      @split _ heap link [(first, load)] (before ++ rest) chain
    have later := ih restChain (fun location mem => once location (mem_cons_of_mem _ mem)) Link.noConfusion
      fun location same => Link.next.inj same ▸ apart
    intro location mem
    rcases mem_cons.mp mem with rfl | within
    · exact apart
    · exact later location within

/-- A chain whose links are kept up to one of them continues where that one now leads. -/
theorem rebuild {continued : List (Nat × Load)} (chain : Chain heap (heap.follow link) (before ++ rest))
    (kept : ∀ source, source ≠ linkAfter link before ->
      source = link ∨ (∃ location ∈ locations before, source = .next location) ->
        changed.follow source = heap.follow source)
    (loads : ∀ location ∈ locations before, ∀ node, heap.node location = some node ->
      ∃ kept, changed.node location = some kept ∧ kept.load = node.load)
    (outside : ∀ location, link = .next location -> location ∉ locations before)
    (tail : Chain changed (changed.follow (linkAfter link before)) continued) :
    Chain changed (changed.follow link) (before ++ continued) := by
  induction before generalizing link with
  | nil => exact tail
  | cons entry before ih =>
    obtain ⟨first, load⟩ := entry
    have nodup := chain.nodup
    rw [cons_append, locations_cons, nodup_cons, locations_append, mem_append] at nodup
    have restChain : Chain heap (heap.follow (.next first)) (before ++ rest) :=
      @split _ heap link [(first, load)] (before ++ rest) chain
    have later := ih restChain (fun source differs within => kept source differs (.inr (by
      rcases within with rfl | ⟨location, mem, same⟩
      · exact ⟨first, mem_cons_self, rfl⟩
      · exact ⟨location, mem_cons_of_mem _ mem, same⟩)))
      (fun location mem => loads location (mem_cons_of_mem _ mem))
      (fun location same again => nodup.1 (.inl (Link.next.inj same ▸ again))) tail
    have differs : link ≠ linkAfter link ((first, load) :: before) := by
      intro same
      rcases linkAfter_eq link ((first, load) :: before) with ⟨-, none⟩ | ⟨location, mem, isNext⟩
      · exact cons_ne_nil _ _ none
      · exact outside location (same.trans isNext) mem
    rw [kept link differs (.inl rfl)]
    generalize heap.follow link = target at chain
    cases chain with
    | @cons _ node _ live _ =>
      obtain ⟨changedNode, changedLive, sameLoad⟩ := loads first mem_cons_self node live
      rw [← sameLoad]
      refine .cons changedLive ?_
      rw [Heap.follow, changedLive] at later
      exact later

end Chain

/-! ## What a change keeps -/

/-- Nodes are kept, but for those that are gone, and for where a link leads and what is
counted. -/
def Keeps (gone : List Nat) (link : Link) (heap changed : Heap Load) : Prop :=
  ∀ location, location ∉ gone -> ∀ node, heap.node location = some node ->
    ∃ kept, changed.node location = some kept ∧ (link ≠ .next location -> kept.next = node.next) ∧
      kept.load = node.load

namespace Keeps

variable {gone : List Nat} {link : Link} {heap middle changed : Heap Load} {location : Nat}
  {target : Option Nat} {node : Node Load} {entries : List (Nat × Load)}

theorem trans (first : Keeps gone link heap middle) (second : Keeps gone link middle changed) :
    Keeps gone link heap changed := by
  intro location stays node live
  obtain ⟨kept, keptLive, sameNext, sameLoad⟩ := first location stays node live
  obtain ⟨last, lastLive, lastNext, lastLoad⟩ := second location stays kept keptLive
  exact ⟨last, lastLive, fun ne => (lastNext ne).trans (sameNext ne), lastLoad.trans sameLoad⟩

theorem modify {change : Node Load -> Node Load} (sameNext : ∀ node, (change node).next = node.next)
    (sameLoad : location ∉ gone -> ∀ node, (change node).load = node.load) :
    Keeps gone link heap (heap.modify location change) := by
  intro other stays node live
  rw [Heap.node_modify]
  split
  next same => exact ⟨_, congrArg _ live, fun _ => sameNext node, sameLoad (same ▸ stays) node⟩
  next => exact ⟨node, live, fun _ => rfl, rfl⟩

theorem disown : Keeps gone link heap (heap.disown location) :=
  modify (fun _ => rfl) fun _ _ => rfl

theorem adopt : Keeps gone link heap (heap.adopt target) := by
  cases target with
  | none => exact fun _ _ node live => ⟨node, live, fun _ => rfl, rfl⟩
  | some location => exact modify (fun _ => rfl) fun _ _ => rfl

theorem point : Keeps gone link heap (heap.point link target) := by
  intro location _ node live
  rw [Heap.node_point]
  split
  next same => exact ⟨_, congrArg _ live, fun ne => absurd same ne, rfl⟩
  next => exact ⟨node, live, fun _ => rfl, rfl⟩

theorem alloc : Keeps gone link heap (heap.alloc node) := by
  intro location _ old live
  rw [Heap.node_alloc, if_neg (Nat.ne_of_lt (Heap.lt_of_node live))]
  exact ⟨old, live, fun _ => rfl, rfl⟩

theorem free (isGone : location ∈ gone) (live : heap.node location = some node) :
    Keeps gone link heap (heap.free location) := by
  intro other stays old oldLive
  have ne : other ≠ location := fun same => stays (by rw [same]; exact isGone)
  rw [Heap.node_free live, if_neg ne]
  exact ⟨old, oldLive, fun _ => rfl, rfl⟩

theorem isSome (keeps : Keeps gone link heap changed) (stays : location ∉ gone)
    (live : (heap.node location).isSome = true) : (changed.node location).isSome = true := by
  obtain ⟨node, isLive⟩ := isSome_iff_exists.mp live
  obtain ⟨kept, keptLive, -⟩ := keeps location stays node isLive
  exact isSome_iff_exists.mpr ⟨kept, keptLive⟩

theorem chain (keeps : Keeps gone link heap changed) (chain : Chain heap target entries)
    (apart : ∀ location ∈ locations entries, location ∉ gone ∧ link ≠ .next location) :
    Chain changed target entries := by
  refine chain.frame fun location mem node live => ?_
  obtain ⟨kept, keptLive, sameNext, sameLoad⟩ := keeps location (apart location mem).1 node live
  exact ⟨kept, keptLive, sameNext (apart location mem).2, sameLoad⟩

end Keeps

end Ns3.Semantics.SharedList
