import Ns3.Network.PacketTagList.Traversal
import Ns3.Semantics.Run

/-!
# Packet tag lists as maps

Each list stands for a map from types of tags to values, and an operation on it changes only its own
map, in every run that replaces no tag of its own by a longer one: `behaves_as_maps`. `Replace`
writes such a tag over the old one.
-/

namespace Ns3.Network

open Ns3.Semantics Ns3.Semantics.SharedList List Option Function Prod Heap PacketTagList

inductive TagAction (Tid Value : Type) where
  | create
  | copy (source : Nat)
  | assign (owner source : Nat)
  | add (owner : Nat) (tag : Value)
  | remove (owner : Nat) (tid : Tid)
  | replace (owner : Nat) (tag : Value)
  | peek (owner : Nat) (tid : Tid)
  | removeAll (owner : Nat)
  /-- The destructor. -/
  | destroy (owner : Nat)

inductive TagAnswer (Value : Type) where
  | done
  /-- The value found by `Remove` or `Peek`. -/
  | value (found : Option Value)
  /-- Whether `Replace` found a tag. -/
  | flag (found : Bool)
  deriving DecidableEq

namespace PacketTagList

variable {Tid Value : Type} [DecidableEq Tid] (codec : TagCodec Tid Value)

def perform (heap : TagHeap Tid) : TagAction Tid Value -> Option (TagHeap Tid × TagAnswer Value)
  | .create => some (heap.push none, .done)
  | .copy source => (copy heap source).map fun heap => (heap, .done)
  | .assign owner source => (assign heap owner source).map fun heap => (heap, .done)
  | .add owner tag => (add codec heap owner tag).map fun heap => (heap, .done)
  | .remove owner tid => (remove codec heap owner tid).map fun result => (result.1, .value result.2)
  | .replace owner tag => (replace codec heap owner tag).map fun result => (result.1, .flag result.2)
  | .peek owner tid => (peek codec heap owner tid).map fun found => (heap, .value found)
  | .removeAll owner => (removeAll heap owner).map fun heap => (heap, .done)
  | .destroy owner => (removeAll heap owner).map fun heap => (heap, .done)

/-- Families of lists, from none on. -/
def system : System (TagHeap Tid) (TagAction Tid Value) where
  Initial heap := heap = ⟨[], []⟩
  step heap action := (perform codec heap action).map Prod.fst

end PacketTagList

/-- Independent maps, one for each list. -/
abbrev TagMaps (Tid Value : Type) :=
  List (Tid -> Option Value)

namespace TagMaps

variable {Tid Value : Type} [DecidableEq Tid] (codec : TagCodec Tid Value) (maps : TagMaps Tid Value)

/-- The map without tags. -/
def empty : Tid -> Option Value :=
  fun _ => none

def map (owner : Nat) : Tid -> Option Value :=
  maps[owner]?.getD empty

def perform : TagAction Tid Value -> TagMaps Tid Value × TagAnswer Value
  | .create => (maps ++ [empty], .done)
  | .copy source => (maps ++ [maps.map source], .done)
  | .assign owner source => (maps.set owner (maps.map source), .done)
  | .add owner tag => (maps.set owner (Function.update (maps.map owner) (codec.tid tag) (some tag)), .done)
  | .remove owner tid => (maps.set owner (Function.update (maps.map owner) tid none), .value (maps.map owner tid))
  | .replace owner tag =>
    (maps.set owner (Function.update (maps.map owner) (codec.tid tag) (some tag)),
      .flag (maps.map owner (codec.tid tag)).isSome)
  | .peek owner tid => (maps, .value (maps.map owner tid))
  | .removeAll owner => (maps.set owner empty, .done)
  | .destroy owner => (maps.set owner empty, .done)

/-- The maps after some actions. -/
def after (actions : List (TagAction Tid Value)) : TagMaps Tid Value :=
  actions.foldl (fun maps action => (maps.perform codec action).1) []

end TagMaps

namespace PacketTagList

section

variable {Tid Value : Type} [DecidableEq Tid] (codec : TagCodec Tid Value) (heap : TagHeap Tid)

/-- No node has as many links as its count can hold. -/
def Countable : Prop :=
  ∀ entry ∈ heap.nodes, ∀ node ∈ entry, node.count.toNat + 1 < 2 ^ 32

instance : Decidable (Countable heap) :=
  have (entry : Option (Node (TagData Tid))) : Decidable (∀ node ∈ entry, node.count.toNat + 1 < 2 ^ 32) :=
    decidableForallMem _
  inferInstanceAs (Decidable (∀ entry ∈ heap.nodes, ∀ node ∈ entry, node.count.toNat + 1 < 2 ^ 32))

/-- A tag found before the first merge has room for the one that replaces it. -/
def Fits (owner : Nat) (tag : Value) : Prop :=
  ∀ stop ∈ search heap (codec.tid tag) heap.nodes.length (.head owner) (heap.follow (.head owner)),
    ∀ cur ∈ stop.2, ∀ node ∈ heap.node cur, node.count ≤ 1 -> (codec.serialize tag).length ≤ node.load.data.length

instance (owner : Nat) (tag : Value) : Decidable (Fits codec heap owner tag) :=
  have (cur : Nat) : Decidable (∀ node ∈ heap.node cur, node.count ≤ 1 ->
      (codec.serialize tag).length ≤ node.load.data.length) :=
    decidableForallMem _
  have (stop : Link × Option Nat) : Decidable (∀ cur ∈ stop.2, ∀ node ∈ heap.node cur, node.count ≤ 1 ->
      (codec.serialize tag).length ≤ node.load.data.length) :=
    decidableForallMem _
  decidableForallMem _

/-- A tag's size is one that a node can have. -/
def Sized (tag : Value) : Prop :=
  (codec.serialize tag).length < 2 ^ 32 - 1

instance (tag : Value) : Decidable (Sized codec tag) :=
  inferInstanceAs (Decidable (_ < _))

/-- An operation on lists that exist, with tags of sizes that nodes can have. A tag added is of a
type not present. -/
def Stated : TagAction Tid Value -> Prop
  | .create => True
  | .copy source => source < heap.heads.length ∧ Countable heap
  | .assign owner source => owner < heap.heads.length ∧ source < heap.heads.length ∧ Countable heap
  | .add owner tag => owner < heap.heads.length ∧ peek codec heap owner (codec.tid tag) = some none ∧ Sized codec tag
  | .remove owner _ => owner < heap.heads.length ∧ Countable heap
  | .replace owner tag => owner < heap.heads.length ∧ Countable heap ∧ Sized codec tag
  | .peek owner _ => owner < heap.heads.length
  | .removeAll owner => owner < heap.heads.length
  | .destroy owner => owner < heap.heads.length

instance [DecidableEq Value] : (action : TagAction Tid Value) -> Decidable (Stated codec heap action)
  | .create => isTrue trivial
  | .copy _ => inferInstanceAs (Decidable (_ ∧ _))
  | .assign _ _ => inferInstanceAs (Decidable (_ ∧ _))
  | .add _ _ => inferInstanceAs (Decidable (_ ∧ _))
  | .remove _ _ => inferInstanceAs (Decidable (_ ∧ _))
  | .replace _ _ => inferInstanceAs (Decidable (_ ∧ _))
  | .peek _ _ => inferInstanceAs (Decidable (_ < _))
  | .removeAll _ => inferInstanceAs (Decidable (_ < _))
  | .destroy _ => inferInstanceAs (Decidable (_ < _))

/-- Besides, a tag that replaces one fits where it is written. -/
def Fitting : TagAction Tid Value -> Prop
  | .replace owner tag => Stated codec heap (.replace owner tag) ∧ Fits codec heap owner tag
  | action => Stated codec heap action

instance [DecidableEq Value] : (action : TagAction Tid Value) -> Decidable (Fitting codec heap action)
  | .create => isTrue trivial
  | .copy source => inferInstanceAs (Decidable (Stated codec heap (.copy source)))
  | .assign owner source => inferInstanceAs (Decidable (Stated codec heap (.assign owner source)))
  | .add owner tag => inferInstanceAs (Decidable (Stated codec heap (.add owner tag)))
  | .remove owner tid => inferInstanceAs (Decidable (Stated codec heap (.remove owner tid)))
  | .replace _ _ => inferInstanceAs (Decidable (_ ∧ _))
  | .peek owner tid => inferInstanceAs (Decidable (Stated codec heap (.peek owner tid)))
  | .removeAll owner => inferInstanceAs (Decidable (Stated codec heap (.removeAll owner)))
  | .destroy owner => inferInstanceAs (Decidable (Stated codec heap (.destroy owner)))

/-- The lists are the maps, and the counts are right. -/
structure BehavesAsMaps (condition : TagHeap Tid -> TagAction Tid Value -> Prop) (maps : TagMaps Tid Value) : Prop where
  length : heap.heads.length = maps.length
  peeks : ∀ owner map, maps[owner]? = some map -> ∀ tid, peek codec heap owner tid = some (map tid)
  /-- An operation succeeds, and answers what the maps answer. -/
  answers : ∀ action, condition heap action ->
    ∃ next, perform codec heap action = some (next, (maps.perform codec action).2)
  counted : ∀ location node, heap.node location = some node -> node.count.toNat = heap.pointers location
  /-- No pointer leads to a node that has been freed. -/
  live : ∀ location, heap.node location = none -> heap.pointers location = 0

end

variable {Tid Value : Type} {codec : TagCodec Tid Value} {heap changed : TagHeap Tid}
  {maps : TagMaps Tid Value} {tid : Tid} {tag : Value} {owner : Nat} {load : TagData Tid}
  {before after : List (TagData Tid)} {entries : List (Nat × TagData Tid)}

/-- The types differ, and the sizes are ones that nodes can have. -/
structure Formed (loads : List (TagData Tid)) : Prop where
  nodup : (loads.map TagData.tid).Nodup
  small : ∀ load ∈ loads, load.data.length < 2 ^ 32 - 1

theorem serialized_eq (sized : Sized codec tag) : serialized codec tag = some (codec.serialize tag) := by
  have small : (codec.serialize tag).length < 2 ^ 32 - 1 := sized
  rw [serialized, createTagData, if_pos small, bind_some, TagBuffer.write, length_replicate,
    if_pos (Nat.le_refl _), drop_replicate, Nat.sub_self, replicate_zero, append_nil]

section

variable (formed : Formed (before ++ load :: after))
include formed

theorem Formed.absent :
    (∀ other ∈ before, other.tid ≠ load.tid) ∧ ∀ other ∈ after, other.tid ≠ load.tid := by
  have nodup := formed.nodup
  rw [map_append, map_cons, nodup_append, nodup_cons] at nodup
  refine ⟨fun other member same => ?_, fun other member same => ?_⟩
  · exact nodup.2.2 other.tid (mem_map_of_mem member) load.tid mem_cons_self same
  · exact nodup.2.1.1 (same ▸ mem_map_of_mem member)

theorem Formed.remove : Formed (before ++ after) where
  nodup := formed.nodup.sublist (((sublist_cons_self load after).append_left before).map _)
  small := fun other member => formed.small other (by
    rcases mem_append.mp member with inFront | behind
    · exact mem_append_left _ inFront
    · exact mem_append_right _ (mem_cons_of_mem _ behind))

theorem Formed.replace {replacement : TagData Tid}
    (same : replacement.tid = load.tid) (small : replacement.data.length < 2 ^ 32 - 1) :
    Formed (before ++ replacement :: after) where
  nodup := by
    have nodup := formed.nodup
    rwa [map_append, map_cons, ← same, ← map_cons, ← map_append] at nodup
  small := by
    intro other member
    rcases mem_append.mp member with inFront | rest
    · exact formed.small other (mem_append_left _ inFront)
    · rcases mem_cons.mp rest with rfl | behind
      · exact small
      · exact formed.small other (mem_append_right _ (mem_cons_of_mem _ behind))

end

theorem roomy {locations : List Nat} (countable : Countable heap) : Roomy heap locations := by
  intro location _
  cases live : heap.node location with
  | none =>
    rw [counted, live, map_none, getD_none]
    omega
  | some node =>
    rw [counted_of_node live]
    exact countable _ (mem_of_getElem? (getElem_of_node live)) node rfl

variable [DecidableEq Tid]

/-- The map that the tags of a list are. -/
def lookup (codec : TagCodec Tid Value) (loads : List (TagData Tid)) (tid : Tid) : Option Value :=
  (loads.find? fun load => load.tid = tid).map fun load => codec.deserialize tid load.data

theorem lookup_of_absent (absent : ∀ load ∈ before, load.tid ≠ tid) : lookup codec before tid = none := by
  rw [lookup, find?_eq_none.mpr fun load member => by simpa using absent load member]
  rfl

theorem lookup_append_of_ne (ne : load.tid ≠ tid) :
    lookup codec (before ++ load :: after) tid = lookup codec (before ++ after) tid := by
  rw [lookup, lookup, find?_append, find?_append, find?_cons_of_neg (by simpa using ne)]

theorem lookup_append_self (absent : ∀ other ∈ before, other.tid ≠ load.tid) :
    lookup codec (before ++ load :: after) load.tid = some (codec.deserialize load.tid load.data) := by
  rw [lookup, find?_append, find?_eq_none.mpr fun other member =>
    by simpa using absent other member, find?_cons_of_pos (by simp)]
  rfl

theorem lookup_remove (formed : Formed (before ++ load :: after)) :
    lookup codec (before ++ after) = update (lookup codec (before ++ load :: after)) load.tid none := by
  obtain ⟨inFront, behind⟩ := formed.absent
  funext tid
  by_cases same : tid = load.tid
  · subst same
    rw [update_self]
    exact lookup_of_absent fun other member => (mem_append.mp member).elim (inFront other) (behind other)
  · rw [update_of_ne same, lookup_append_of_ne (Ne.symm same)]

theorem lookup_replace (formed : Formed (before ++ load :: after)) (same : load.tid = codec.tid tag)
    (rest : List UInt8) :
    lookup codec (before ++ ⟨codec.tid tag, codec.serialize tag ++ rest⟩ :: after) =
      update (lookup codec (before ++ load :: after)) (codec.tid tag) (some tag) := by
  obtain ⟨inFront, -⟩ := formed.absent
  funext tid
  by_cases its : tid = codec.tid tag
  · subst its
    rw [update_self]
    have found := @lookup_append_self _ _ codec ⟨codec.tid tag, codec.serialize tag ++ rest⟩ before after _
      (same ▸ inFront)
    rwa [codec.deserialize_serialize] at found
  · rw [update_of_ne its, lookup_append_of_ne (Ne.symm its), lookup_append_of_ne (same ▸ Ne.symm its)]

theorem lookup_add (rest : List UInt8) : lookup codec (⟨codec.tid tag, codec.serialize tag ++ rest⟩ :: after) =
    update (lookup codec after) (codec.tid tag) (some tag) := by
  funext tid
  by_cases its : tid = codec.tid tag
  · subst its
    rw [update_self]
    have found := @lookup_append_self _ _ codec ⟨codec.tid tag, codec.serialize tag ++ rest⟩ [] after _
      (fun _ none => nomatch none)
    rwa [codec.deserialize_serialize] at found
  · rw [update_of_ne its]
    exact @lookup_append_of_ne _ _ codec tid ⟨codec.tid tag, codec.serialize tag ++ rest⟩ [] after _ (Ne.symm its)

/-- What every operation keeps. -/
structure Represents (codec : TagCodec Tid Value) (heap : TagHeap Tid) (maps : TagMaps Tid Value) : Prop where
  counted : Counted heap
  length : heap.heads.length = maps.length
  lists : ∀ owner map, maps[owner]? = some map -> ∃ entries, Chain heap (heap.follow (.head owner)) entries ∧
    Formed (entries.map Prod.snd) ∧ map = lookup codec (entries.map Prod.snd)

section

variable (represents : Represents codec heap maps)
include represents

theorem Represents.standing (valid : owner < heap.heads.length) :
    ∃ entries, At heap owner [] entries ∧ Formed (entries.map snd) ∧
      maps.map owner = lookup codec (entries.map snd) := by
  have bound : owner < maps.length := by rwa [← represents.length]
  obtain ⟨entries, chain, formed, same⟩ := represents.lists owner maps[owner] (getElem?_eq_getElem bound)
  refine ⟨entries, ⟨represents.counted, valid, chain, fun _ none => nomatch none⟩, formed, ?_⟩
  rw [TagMaps.map, getElem?_eq_getElem bound, getD_some, same]

theorem Represents.changes (changes : Changes heap changed owner entries) (formed : Formed (entries.map snd))
    {map : Tid -> Option Value} (same : map = lookup codec (entries.map snd)) :
    Represents codec changed (maps.set owner map) where
  counted := changes.counted
  length := by rw [changes.length, represents.length, length_set]
  lists := by
    intro other otherMap isMap
    rw [getElem?_set] at isMap
    split at isMap
    next equal =>
      subst equal
      split at isMap
      next bound =>
        cases isMap
        exact ⟨entries, changes.own, formed, same⟩
      next => exact absurd isMap (by simp)
    next ne =>
      obtain ⟨others, chain, othersFormed, otherSame⟩ := represents.lists other otherMap isMap
      exact ⟨others, changes.others other (Ne.symm ne) others chain, othersFormed, otherSame⟩

section

variable (valid : owner < heap.heads.length)
include valid

theorem peek_represents : peek codec heap owner tid = some (maps.map owner tid) := by
  obtain ⟨entries, stands, -, same⟩ := represents.standing valid
  have whole : Chain heap (heap.follow (.head owner)) entries := stands.chain
  have ofLoads : (entries.map snd).find? (fun load => load.tid = tid) =
      (entries.find? fun entry => entry.2.tid = tid).map snd := find?_map ..
  rw [peek, find_chain whole whole.length_le, same, lookup, ofLoads]
  cases found : entries.find? fun entry => entry.2.tid = tid with
  | none => rfl
  | some entry =>
    obtain ⟨node, live, sameLoad⟩ := whole.node_of_mem (mem_of_find?_eq_some found)
    simp only [map_some, bind_some, live, sameLoad]

theorem add_represents (nothing : maps.map owner (codec.tid tag) = none)
    (sized : Sized codec tag) :
    ∃ changed, add codec heap owner tag = some changed ∧ Represents codec changed
      (maps.set owner (update (maps.map owner) (codec.tid tag) (some tag))) := by
  obtain ⟨entries, stands, formed, same⟩ := represents.standing valid
  have whole : Chain heap (heap.follow (.head owner)) entries := stands.chain
  have absent : ∀ entry ∈ entries, entry.2.tid ≠ codec.tid tag := by
    intro entry member isTag
    rw [same, lookup, map_eq_none_iff, find?_eq_none] at nothing
    exact absurd (decide_eq_true isTag) (nothing entry.2 (List.mem_map_of_mem member))
  have unfound : entries.find? (fun entry => entry.2.tid = codec.tid tag) = none :=
    find?_eq_none.mpr fun entry member => by simpa using absent entry member
  refine ⟨_, ?_, represents.changes (stands.prepend ⟨codec.tid tag, codec.serialize tag⟩) ?_ ?_⟩
  · rw [add, find_chain whole whole.length_le, unfound, serialized_eq sized]
    rfl
  · constructor
    · rw [map_cons, map_cons, nodup_cons, List.map_map]
      refine ⟨fun again => ?_, by rw [← List.map_map]; exact formed.nodup⟩
      obtain ⟨entry, member, isTag⟩ := List.mem_map.mp again
      exact absent entry member isTag
    · rw [map_cons]
      intro load member
      rcases mem_cons.mp member with rfl | old
      · exact sized
      · exact formed.small load old
  · rw [map_cons, same, ← append_nil (codec.serialize tag), lookup_add]

theorem remove_represents (countable : Countable heap) :
    ∃ changed, remove codec heap owner tid = some (changed, maps.map owner tid) ∧
      Represents codec changed (maps.set owner (update (maps.map owner) tid none)) := by
  obtain ⟨entries, stands, formed, same⟩ := represents.standing valid
  have small : ∀ entry ∈ entries, entry.2.data.length < 2 ^ 32 - 1 := fun entry member =>
    formed.small entry.2 (mem_map_of_mem member)
  rcases @cowTraverse_at _ _ heap tid owner _ _ stands small (roomy countable) (removeWriter codec tid) with
    ⟨absent, traversed⟩ | ⟨preMerge, merged, before, location, load, tail, found, traversed⟩
  · have nothing : maps.map owner tid = none := by
      rw [same]
      refine lookup_of_absent fun load member => ?_
      obtain ⟨entry, within, rfl⟩ := mem_map.mp member
      exact absent entry within
    refine ⟨heap, by rw [remove, traversed, nothing], represents.changes stands.unchanged formed ?_⟩
    rw [← nothing, update_eq_self, same]
    rfl
  · have loads := found.loads
    have isTag := found.same
    rw [loads] at formed same
    obtain ⟨node, live, sameLoad, -, -⟩ := found.stands.node_first
    have value : maps.map owner tid = some (codec.deserialize tid node.load.data) := by
      rw [same, sameLoad, ← isTag]
      exact lookup_append_self formed.absent.1
    have left : update (maps.map owner) tid none = lookup codec ((before ++ tail).map snd) := by
      rw [map_append, lookup_remove formed, same, isTag]
    have formedLeft : Formed ((before ++ tail).map snd) := by
      rw [map_append]
      exact formed.remove
    cases preMerge with
    | true =>
      obtain ⟨rfl, once, -⟩ := found.once rfl
      have unlinked := found.stands.unlink live once
      refine ⟨_, ?_, represents.changes (found.changes.trans unlinked) formedLeft left⟩
      rw [remove, traversed, removeWriter, live, value]
      rfl
    | false =>
      obtain ⟨-, roomy⟩ := found.shared rfl
      have bypassed := found.stands.bypass live fun next isNext =>
        roomy next (mem_of_start ((found.stands.rest_chain live).target_eq ▸ isNext))
      refine ⟨_, ?_, represents.changes (found.changes.trans bypassed) formedLeft left⟩
      rw [remove, traversed, removeWriter, live, value]
      rfl

theorem replace_represents (countable : Countable heap) (sized : Sized codec tag) (fits : Fits codec heap owner tag) :
    ∃ changed, replace codec heap owner tag = some (changed, (maps.map owner (codec.tid tag)).isSome) ∧
      Represents codec changed (maps.set owner (update (maps.map owner) (codec.tid tag) (some tag))) := by
  obtain ⟨entries, stands, formed, same⟩ := represents.standing valid
  have small : ∀ entry ∈ entries, entry.2.data.length < 2 ^ 32 - 1 := fun entry member =>
    formed.small entry.2 (mem_map_of_mem member)
  rcases @cowTraverse_at _ _ heap (codec.tid tag) owner _ _ stands small (roomy countable)
    (replaceWriter codec tag) with
    ⟨absent, traversed⟩ | ⟨preMerge, merged, before, location, load, tail, found, traversed⟩
  · have nothing : maps.map owner (codec.tid tag) = none := by
      rw [same]
      refine lookup_of_absent fun load member => ?_
      obtain ⟨entry, within, rfl⟩ := mem_map.mp member
      exact absent entry within
    obtain ⟨changed, added, after⟩ := add_represents represents valid nothing sized
    refine ⟨changed, ?_, after⟩
    rw [replace, traversed, nothing]
    exact congrArg (Option.map fun added => (added, false)) added
  · have loads := found.loads
    have isTag := found.same
    rw [loads] at formed same
    obtain ⟨node, live, sameLoad, -, -⟩ := found.stands.node_first
    have present : (maps.map owner (codec.tid tag)).isSome = true := by
      rw [same, ← isTag, lookup_append_self formed.absent.1]
      rfl
    have replaced (rest : List UInt8) : update (maps.map owner) (codec.tid tag) (some tag) =
        lookup codec (before.map snd ++ ⟨codec.tid tag, codec.serialize tag ++ rest⟩ :: tail.map snd) := by
      rw [same, lookup_replace formed isTag]
    cases preMerge with
    | true =>
      obtain ⟨rfl, once, searched⟩ := found.once rfl
      have short : (codec.serialize tag).length ≤ node.load.data.length := by
        refine fits _ searched location rfl node live ?_
        rw [counted_of_node live] at once
        exact UInt32.le_iff_toNat_le.mpr once
      have written : TagBuffer.write (codec.serialize tag) node.load.data =
          some (codec.serialize tag ++ node.load.data.drop (codec.serialize tag).length) := by
        rw [TagBuffer.write, if_pos short]
      have tidKept : node.load.tid = codec.tid tag := sameLoad ▸ isTag
      have reloaded := found.stands.reload once
        ⟨codec.tid tag, codec.serialize tag ++ node.load.data.drop (codec.serialize tag).length⟩
      refine ⟨_, ?_, represents.changes (found.changes.trans reloaded) ?_ ?_⟩
      · rw [replace, traversed, replaceWriter, live, present]
        simp only [bind_some, if_true, written, map_some, tidKept]
      · rw [map_append, map_cons]
        refine formed.replace isTag.symm ?_
        have := formed.small load (mem_append_right _ mem_cons_self)
        rw [← sameLoad] at this
        simp only [length_append, length_drop]
        omega
      · rw [map_append, map_cons, replaced]
    | false =>
      obtain ⟨-, roomy⟩ := found.shared rfl
      have renewed := found.stands.renew live (fun next isNext =>
        roomy next (mem_of_start ((found.stands.rest_chain live).target_eq ▸ isNext)))
        ⟨codec.tid tag, codec.serialize tag⟩
      refine ⟨_, ?_, represents.changes (found.changes.trans renewed) ?_ ?_⟩
      · rw [replace, traversed, replaceWriter, live, present]
        simp only [serialized_eq sized]
        rfl
      · rw [map_append, map_cons]
        exact formed.replace isTag.symm sized
      · rw [map_append, map_cons, replaced [], append_nil]

theorem removeAll_represents :
    ∃ changed, removeAll heap owner = some changed ∧ Represents codec changed (maps.set owner TagMaps.empty) := by
  obtain ⟨entries, stands, -, -⟩ := represents.standing valid
  obtain ⟨changed, removed, changes, -⟩ := removeAll_at stands
  exact ⟨changed, removed, represents.changes changes ⟨nodup_nil, fun _ none => nomatch none⟩ rfl⟩

end

theorem create_represents : Represents codec (heap.push none) (maps ++ [TagMaps.empty]) where
  counted := by
    intro location
    rw [pointers_push, ← represents.counted location]
    rfl
  length := by simp only [push, length_append, length_singleton, represents.length]
  lists := by
    intro owner map isMap
    rcases Nat.lt_trichotomy owner maps.length with old | rfl | beyond
    · rw [getElem?_append_left old] at isMap
      obtain ⟨entries, chain, formed, same⟩ := represents.lists owner map isMap
      refine ⟨entries, ?_, formed, same⟩
      rw [follow_push_old (by rwa [represents.length])]
      exact chain.push
    · rw [getElem?_append_right (Nat.le_refl _), Nat.sub_self] at isMap
      cases isMap
      refine ⟨[], ?_, ⟨nodup_nil, fun _ none => absurd none not_mem_nil⟩, rfl⟩
      rw [← represents.length, follow_push_new]
      exact .nil
    · rw [getElem?_eq_none (by simp only [length_append, length_singleton]; omega)] at isMap
      exact absurd isMap (by simp)

theorem copy_represents {source : Nat} (valid : source < heap.heads.length) (countable : Countable heap) :
    ∃ changed, copy heap source = some changed ∧ Represents codec changed (maps ++ [maps.map source]) := by
  obtain ⟨entries, stands, formed, same⟩ := represents.standing valid
  have chain : Chain heap (heap.follow (.head source)) entries := stands.chain
  have created := create_represents represents
  have standsNew : At (heap.push none) heap.heads.length [] [] := {
    counted := created.counted
    valid := by simp only [Heap.push, length_append, length_singleton]; omega
    chain := by rw [Heap.follow_push_new]; exact .nil
    once := fun _ none => nomatch none }
  have attached := standsNew.attach chain.push fun location isHead =>
    (roomy countable : Roomy heap [location]) location mem_cons_self
  have represented := created.changes attached formed same
  rw [Heap.attach, Heap.point_push, represents.length, set_append_right _ _ (Nat.le_refl _),
    Nat.sub_self] at represented
  refine ⟨_, ?_, represented⟩
  rw [copy]
  cases leads : heap.follow (.head source) with
  | none => rfl
  | some head =>
    rw [leads] at chain
    cases chain with
    | @cons _ node _ live _ => simp only [live, map_some]

theorem assign_represents {source : Nat} (valid : owner < heap.heads.length) (sourceValid : source < heap.heads.length)
    (countable : Countable heap) : ∃ changed, assign heap owner source = some changed ∧
      Represents codec changed (maps.set owner (maps.map source)) := by
  obtain ⟨entries, stands, formed, same⟩ := represents.standing valid
  obtain ⟨others, sourceStands, othersFormed, otherSame⟩ := represents.standing sourceValid
  have chain : Chain heap (heap.follow (.head owner)) entries := stands.chain
  have sourceChain : Chain heap (heap.follow (.head source)) others := sourceStands.chain
  rw [assign]
  split
  next equal =>
    rw [equal] at chain
    obtain rfl := chain.unique sourceChain
    exact ⟨heap, rfl, represents.changes stands.unchanged formed otherSame⟩
  next differ =>
    have ne : source ≠ owner := fun equal => differ (by rw [equal])
    obtain ⟨removed, isRemoved, changes, fewer⟩ := removeAll_at stands
    have kept := changes.others source ne others sourceChain
    have sameHead : removed.follow (.head source) = heap.follow (.head source) :=
      kept.target_eq.trans sourceChain.target_eq.symm
    have standsRemoved : At removed owner [] [] := {
      counted := changes.counted
      valid := changes.length ▸ valid
      chain := changes.own
      once := fun _ none => nomatch none }
    rw [sameHead] at kept
    have attached := standsRemoved.attach kept fun location isHead =>
      Nat.lt_of_le_of_lt (Nat.succ_le_succ (fewer location))
        ((roomy countable : Roomy heap [location]) location mem_cons_self)
    refine ⟨_, ?_, represents.changes (changes.trans attached) othersFormed otherSame⟩
    rw [isRemoved, bind_some, sameHead, Heap.attach]
    cases leads : heap.follow (.head source) with
    | none => rfl
    | some location =>
      rw [leads] at kept
      cases kept with
      | @cons _ node _ live _ => simp only [live, map_some]

theorem Represents.step {action : TagAction Tid Value} (fitting : Fitting codec heap action) :
    ∃ next, perform codec heap action = some (next, (maps.perform codec action).2) ∧
      Represents codec next (maps.perform codec action).1 := by
  cases action with
  | create => exact ⟨_, rfl, create_represents represents⟩
  | copy source =>
    obtain ⟨changed, copied, after⟩ := copy_represents represents fitting.1 fitting.2
    exact ⟨changed, by rw [perform, copied]; rfl, after⟩
  | assign owner source =>
    obtain ⟨changed, assigned, after⟩ := assign_represents represents fitting.1 fitting.2.1 fitting.2.2
    exact ⟨changed, by rw [perform, assigned]; rfl, after⟩
  | add owner tag =>
    obtain ⟨valid, absent, sized⟩ := fitting
    rw [peek_represents represents valid] at absent
    obtain ⟨changed, added, after⟩ := add_represents represents valid (some.inj absent) sized
    exact ⟨changed, by rw [perform, added]; rfl, after⟩
  | remove owner tid =>
    obtain ⟨changed, removed, after⟩ := remove_represents represents fitting.1 fitting.2
    exact ⟨changed, by rw [perform, removed]; rfl, after⟩
  | replace owner tag =>
    obtain ⟨⟨valid, countable, sized⟩, fits⟩ := fitting
    obtain ⟨changed, replaced, after⟩ := replace_represents represents valid countable sized fits
    exact ⟨changed, by rw [perform, replaced]; rfl, after⟩
  | peek owner tid =>
    exact ⟨heap, by rw [perform, peek_represents represents fitting]; rfl, represents⟩
  | removeAll owner =>
    obtain ⟨changed, removed, after⟩ := removeAll_represents represents fitting
    exact ⟨changed, by rw [perform, removed]; rfl, after⟩
  | destroy owner =>
    obtain ⟨changed, removed, after⟩ := removeAll_represents represents fitting
    exact ⟨changed, by rw [perform, removed]; rfl, after⟩

theorem Represents.behaves : BehavesAsMaps codec heap (Fitting codec) maps where
  length := represents.length
  peeks := by
    intro owner map isMap tid
    obtain ⟨bound, -⟩ := List.getElem?_eq_some_iff.mp isMap
    rw [peek_represents represents (represents.length ▸ bound), TagMaps.map, isMap, getD_some]
  answers := by
    intro action fitting
    obtain ⟨next, performed, -⟩ := represents.step fitting
    exact ⟨next, performed⟩
  counted := by
    intro location node live
    rw [← represents.counted location, Heap.counted_of_node live]
  live := by
    intro location freed
    rw [← represents.counted location, Heap.counted, freed]
    rfl

end

/-- Lists behave as independent maps in every run whose replacements fit. -/
theorem behaves_as_maps (codec : TagCodec Tid Value) {trace : List (TagHeap Tid × TagAction Tid Value)}
    {heap : TagHeap Tid} (run : (system codec).Run trace heap)
    (fitting : ∀ entry ∈ trace, Fitting codec entry.1 entry.2) :
    BehavesAsMaps codec heap (Fitting codec) (TagMaps.after codec (trace.map Prod.snd)) := by
  suffices Represents codec heap (TagMaps.after codec (trace.map Prod.snd)) from this.behaves
  induction run with
  | initial valid =>
    obtain rfl := valid
    refine ⟨fun location => ?_, rfl, fun owner map none => absurd none (by simp [TagMaps.after])⟩
    simp [Heap.counted, Heap.node, Heap.pointers]
  | @step trace heap action next prior transition ih =>
    have represents := ih fun entry member => fitting entry (mem_append_left _ member)
    obtain ⟨reached, performed, after⟩ := represents.step (fitting (heap, action) (by simp))
    obtain rfl : reached = next := by
      change (perform codec heap action).map Prod.fst = some next at transition
      rw [performed] at transition
      exact some.inj transition
    rw [map_append, TagMaps.after, foldl_append]
    exact after

/-- A name as `DeviceNameTag` has it. -/
abbrev Name :=
  { name : List UInt8 // name.length < 256 }

/-- Tags of any type that serialize a name as `DeviceNameTag` does: its length in one byte, and its
bytes. -/
def nameCodec : TagCodec Nat (Nat × Name) where
  tid := Prod.fst
  serialize tag := UInt8.ofNat tag.2.val.length :: tag.2.val
  deserialize tid data := (tid, ⟨data.tail.take (data.headD 0).toNat,
    Nat.lt_of_le_of_lt (length_take_le _ _) (UInt8.toNat_lt _)⟩)
  deserialize_serialize := by
    rintro ⟨tid, name, short⟩ rest
    refine Prod.ext rfl (Subtype.ext ?_)
    simp only [cons_append, tail_cons, headD_cons, UInt8.toNat_ofNat']
    rw [Nat.mod_eq_of_lt short, take_left]

def tagOf (tid : Nat) (name : List UInt8) (short : name.length < 256 := by decide) : Nat × Name :=
  (tid, ⟨name, short⟩)

/-- Lists that share nodes, with removals before, at and behind the merge, and replacements. -/
def shared : List (TagAction Nat (Nat × Name)) :=
  [.create, .add 0 (tagOf 1 [10, 11]), .add 0 (tagOf 2 [20]), .copy 0, .add 1 (tagOf 3 [30]), .copy 1, .remove 1 1,
    .replace 2 (tagOf 2 [21, 22, 23]), .replace 1 (tagOf 3 [31]), .assign 0 2, .removeAll 2, .replace 0 (tagOf 4 []),
    .destroy 1]

theorem shared_runs : ((system nameCodec).exec ⟨[], []⟩ shared).isSome := by
  decide +kernel

theorem shared_fitting : ∀ entry ∈ (system nameCodec).steps ⟨[], []⟩ shared, Fitting nameCodec entry.1 entry.2 := by
  decide +kernel

theorem shared_behaves_as_maps :
    BehavesAsMaps nameCodec (((system nameCodec).exec ⟨[], []⟩ shared).get shared_runs) (Fitting nameCodec)
      (TagMaps.after nameCodec (((system nameCodec).steps ⟨[], []⟩ shared).map Prod.snd)) :=
  behaves_as_maps nameCodec (System.run_of_exec rfl (some_get shared_runs).symm) shared_fitting

/-- A tag that is not shared is replaced by a longer one: it is written past the end of the
node. -/
theorem longer_replacement_fails :
    ¬ ∀ trace heap, (system nameCodec).Run trace heap -> (∀ entry ∈ trace, Stated nameCodec entry.1 entry.2) ->
      BehavesAsMaps nameCodec heap (Stated nameCodec) (TagMaps.after nameCodec (trace.map Prod.snd)) := by
  intro asMaps
  have behaves := asMaps _ _ (@System.run_of_exec _ _ (system nameCodec) _ _ rfl
    [.create, .add 0 (tagOf 1 [10])] (some_get (by decide +kernel)).symm) (by decide +kernel)
  obtain ⟨next, performed⟩ := behaves.answers (.replace 0 (tagOf 1 [10, 11])) (by decide +kernel)
  have fails : perform nameCodec (((system nameCodec).exec ⟨[], []⟩ [.create, .add 0 (tagOf 1 [10])]).get
    (by decide +kernel)) (.replace 0 (tagOf 1 [10, 11])) = none := by decide +kernel
  rw [fails] at performed
  exact absurd performed (by simp)

end PacketTagList

end Ns3.Network
