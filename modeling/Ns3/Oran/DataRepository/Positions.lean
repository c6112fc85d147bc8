import Mathlib.Algebra.Order.Ring.Int
import Mathlib.Data.Finset.Card
import Ns3.Oran.DataRepository.Model

/-!
# The positions of a node

`SavePosition` appends a row to `nodelocation`, and `GetNodePositions` reads the newest rows of
a window into a map by time. The rows arrive newest first and each one overwrites the entry of
its time, so among the saves of one time step it is the first that stays.
-/

namespace Ns3.Oran.DataRepository

open Ns3.Sql List

variable {D V : Type}

/-- A row of `nodelocation`, over any type of positions. -/
structure NodeLocation (V : Type) where
  nodeid : Int64
  position : V
  simulationtime : Int

/-- The repository with the table of positions. -/
structure Located (D V : Type) where
  repository : Repository D
  nodelocation : List (NodeLocation V)

/-- `OranDataRepositorySqlite::SavePosition`. A full table fails. -/
def savePosition (store : Located D V) (e2NodeId : UInt64) (pos : V) (t : Int) : Option (Located D V) :=
  if store.repository.active then
    if isNodeRegistered store.repository e2NodeId then
      if store.nodelocation.length < 2 ^ 63 - 1 then
        some { store with nodelocation := store.nodelocation ++ [⟨e2NodeId.toInt64, pos, t⟩] }
      else none
    else some store
  else some store

/-- `GET_NODE_ALL_POSITIONS`. -/
def getNodeAllPositions (store : Located D V) (e2NodeId : UInt64) (fromTime toTime : Int)
    (maxEntries : UInt64) : List (NodeLocation V) :=
  limit maxEntries.toInt64 (byTimeDesc NodeLocation.simulationtime (store.nodelocation.filter
    fun row => row.nodeid = e2NodeId.toInt64 ∧ fromTime ≤ row.simulationtime ∧ row.simulationtime ≤ toTime))

/-- The loop of `GetNodePositions` over the rows. -/
def readPositions (rows : List (NodeLocation V)) : Int -> Option V :=
  rows.foldl (fun nodePositions row =>
    Function.update nodePositions row.simulationtime (some row.position)) fun _ => none

/-- `OranDataRepositorySqlite::GetNodePositions`. -/
def getNodePositions (store : Located D V) (e2NodeId : UInt64) (fromTime toTime : Int)
    (maxEntries : UInt64) : Int -> Option V :=
  if store.repository.active then
    if isNodeRegistered store.repository e2NodeId then
      readPositions (getNodeAllPositions store e2NodeId fromTime toTime maxEntries)
    else fun _ => none
  else fun _ => none

/-- A call of `SavePosition`. -/
structure Save (V : Type) where
  e2NodeId : UInt64
  pos : V
  t : Int

def saveAll (store : Located D V) : List (Save V) -> Option (Located D V)
  | [] => some store
  | save :: saves =>
    (savePosition store save.e2NodeId save.pos save.t).bind fun store => saveAll store saves

/-- The row a save writes. -/
def Save.row (save : Save V) : NodeLocation V :=
  ⟨save.e2NodeId.toInt64, save.pos, save.t⟩

variable (saves : List (Save V))

/-- The saves of a node in a window of time. -/
def savesWithin (e2NodeId : UInt64) (fromTime toTime : Int) : List (Save V) :=
  saves.filter fun save => save.e2NodeId = e2NodeId ∧ fromTime ≤ save.t ∧ save.t ≤ toTime

/-- The time steps with a saved position. -/
def timeSteps : Finset Int :=
  (saves.map Save.t).toFinset

def lastSaved (t : Int) : Option V :=
  (saves.filter fun save => save.t = t).getLast?.map Save.pos

def firstSaved (t : Int) : Option V :=
  (saves.filter fun save => save.t = t).head?.map Save.pos

/-- The newest saves. -/
def newestSaves (maxEntries : Nat) (saves : List (Save V)) : List (Save V) :=
  saves.drop (saves.length - maxEntries)

/-- A map with the positions saved last for the most recent time steps. -/
def RecentPositions (maxEntries : Nat) (positions : Int -> Option V) : Prop :=
  ∃ keys : Finset Int, (∀ t, (positions t).isSome ↔ t ∈ keys) ∧ keys ⊆ timeSteps saves ∧
    keys.card = min maxEntries (timeSteps saves).card ∧
    (∀ t ∈ keys, ∀ other ∈ timeSteps saves, other ∉ keys -> other < t) ∧
    ∀ t ∈ keys, positions t = lastSaved saves t

/-- The newest saves say the same at their first and last for each time step, and either no two
of them are of one time step or they reach back to every time step. -/
structure Unambiguous (saves : List (Save V)) (maxEntries : Nat) : Prop where
  agree : ∀ t, firstSaved (newestSaves maxEntries saves) t = lastSaved (newestSaves maxEntries saves) t
  spread : ((newestSaves maxEntries saves).map Save.t).Nodup ∨
    timeSteps saves ⊆ timeSteps (newestSaves maxEntries saves)

variable {repository : Repository D} {e2NodeId : UInt64} {store : Located D V} {saves : List (Save V)}

theorem active_of_registered
    (registered : isNodeRegistered repository e2NodeId = true) : repository.active = true := by
  rw [isNodeRegistered] at registered
  split at registered
  · next active => exact active
  · cases registered

/-- The saves that reach the table are those of registered nodes. -/
theorem saveAll_eq {final : Located D V}
    (active : store.repository.active = true) (done : saveAll store saves = some final)
    (room : store.nodelocation.length < 2 ^ 63) :
    final.repository = store.repository ∧ final.nodelocation.length < 2 ^ 63 ∧
      final.nodelocation = store.nodelocation ++ (saves.filter fun save =>
        isNodeRegistered store.repository save.e2NodeId).map Save.row := by
  induction saves generalizing store with
  | nil =>
    cases done
    exact ⟨rfl, room, (append_nil _).symm⟩
  | cons save saves ih =>
    obtain ⟨next, saved, rest⟩ := Option.bind_eq_some_iff.mp done
    rw [savePosition, if_pos active] at saved
    cases registered : isNodeRegistered store.repository save.e2NodeId with
    | true =>
      rw [if_pos registered] at saved
      obtain ⟨free, same⟩ := Option.ite_none_right_eq_some.mp saved
      cases same
      obtain ⟨repository, length, rows⟩ := ih (by exact active) rest (by
        rw [length_append, length_singleton]
        omega)
      refine ⟨repository, length, ?_⟩
      rw [rows, append_assoc]
      simp [registered, Save.row]
    | false =>
      rw [if_neg (Bool.eq_false_iff.mp registered)] at saved
      cases saved
      simpa [registered] using ih active rest room

theorem toInt64_inj {id other : UInt64} : id.toInt64 = other.toInt64 ↔ id = other := by
  rw [← Int64.toBitVec_inj, ← UInt64.toBitVec_inj, UInt64.toBitVec_toInt64, UInt64.toBitVec_toInt64]

theorem getNodeAllPositions_eq
    (active : repository.active = true) (registered : isNodeRegistered repository e2NodeId = true)
    (ordered : saves.Pairwise fun save later => save.t ≤ later.t)
    (done : saveAll ⟨repository, []⟩ saves = some store)
    (fromTime toTime : Int) (maxEntries : UInt64) :
    getNodeAllPositions store e2NodeId fromTime toTime maxEntries =
      ((newestSaves maxEntries.toNat (savesWithin saves e2NodeId fromTime toTime)).map Save.row).reverse := by
  obtain ⟨-, length, rows⟩ := saveAll_eq (by exact active) done (Nat.two_pow_pos 63)
  have found : store.nodelocation.filter (fun row => row.nodeid = e2NodeId.toInt64 ∧
      fromTime ≤ row.simulationtime ∧ row.simulationtime ≤ toTime) =
        (savesWithin saves e2NodeId fromTime toTime).map Save.row := by
    rw [rows, nil_append, filter_map, filter_filter, savesWithin]
    congr 1
    apply filter_congr
    intro save _
    simp only [Function.comp_apply, Save.row, toInt64_inj]
    by_cases same : save.e2NodeId = e2NodeId
    · simp [same, registered]
    · simp [same]
  have inOrder : ((savesWithin saves e2NodeId fromTime toTime).map Save.row).Pairwise
      fun row later => row.simulationtime ≤ later.simulationtime :=
    pairwise_map.mpr (ordered.filter _)
  have few : (savesWithin saves e2NodeId fromTime toTime).length < 2 ^ 63 := by
    have kept := length_filter_le (fun row : NodeLocation V => decide (row.nodeid =
      e2NodeId.toInt64 ∧ fromTime ≤ row.simulationtime ∧ row.simulationtime ≤ toTime))
      store.nodelocation
    rw [found, length_map] at kept
    omega
  rw [getNodeAllPositions, found, byTimeDesc_eq_reverse inOrder, newestSaves, map_drop]
  generalize (savesWithin saves e2NodeId fromTime toTime) = window at few ⊢
  have least := maxEntries.toInt64.le_toInt
  have bound := maxEntries.toNat_lt
  have count : maxEntries.toInt64.toInt = maxEntries.toNat ∨
      maxEntries.toInt64.toInt = maxEntries.toNat - 2 ^ 64 := by
    rw [← Int64.toInt_toBitVec, UInt64.toBitVec_toInt64, BitVec.toInt_eq_toNat_cond, UInt64.toNat_toBitVec]
    split
    · exact .inl rfl
    · exact .inr rfl
  rw [limit]
  split
  · next negative =>
      rw [Int64.lt_iff_toInt_lt] at negative
      have none : window.length - maxEntries.toNat = 0 := by
        change _ < (0 : Int) at negative
        omega
      rw [none, drop_zero]
  · next counted =>
      rw [Int64.lt_iff_toInt_lt] at counted
      have same : maxEntries.toInt64.toInt.toNat = maxEntries.toNat := by
        change ¬ _ < (0 : Int) at counted
        omega
      rw [same, take_reverse, length_map]

/-- Read last first, the entry of a time is that of its first row. -/
theorem readPositions_reverse (saves : List (Save V)) (t : Int) :
    readPositions (saves.map Save.row).reverse t = firstSaved saves t := by
  rw [readPositions, foldl_reverse]
  induction saves with
  | nil => rfl
  | cons save saves ih =>
    rw [map_cons, foldr_cons, Function.update_apply, firstSaved, filter_cons]
    change (if t = save.t then some save.pos else _) = _
    by_cases same : save.t = t
    · rw [if_pos same.symm, if_pos (decide_eq_true same)]
      rfl
    · rw [if_neg (Ne.symm same), if_neg (by simpa using same)]
      exact ih

variable {saves : List (Save V)} {maxEntries : Nat} {t : Int}

theorem mem_timeSteps : t ∈ timeSteps saves ↔ ∃ save ∈ saves, save.t = t := by
  rw [timeSteps, mem_toFinset, mem_map]

theorem firstSaved_isSome : (firstSaved saves t).isSome ↔ t ∈ timeSteps saves := by
  rw [firstSaved, Option.isSome_map, isSome_head?, mem_timeSteps]
  simp [filter_eq_nil_iff]

theorem newestSaves_split (saves : List (Save V)) (maxEntries : Nat) :
    ∃ older, saves = older ++ newestSaves maxEntries saves :=
  ⟨saves.take (saves.length - maxEntries), (take_append_drop _ saves).symm⟩

theorem newestSaves_timeSteps : timeSteps (newestSaves maxEntries saves) ⊆ timeSteps saves := by
  intro t mem
  obtain ⟨save, isNewest, same⟩ := mem_timeSteps.mp mem
  exact mem_timeSteps.mpr ⟨save, mem_of_mem_drop isNewest, same⟩

/-- What is saved last for a time step is among the newest saves when any of them is. -/
theorem lastSaved_newestSaves (present : t ∈ timeSteps (newestSaves maxEntries saves)) :
    lastSaved (newestSaves maxEntries saves) t = lastSaved saves t := by
  obtain ⟨older, split⟩ := newestSaves_split saves maxEntries
  obtain ⟨save, mem, same⟩ := mem_timeSteps.mp present
  have nonempty : (newestSaves maxEntries saves).filter (fun save => save.t = t) ≠ [] :=
    ne_nil_of_mem (mem_filter.mpr ⟨mem, decide_eq_true same⟩)
  conv_rhs => rw [split]
  rw [lastSaved, lastSaved, filter_append, getLast?_append_of_ne_nil _ nonempty]

/-- The newest saves are of the latest times. -/
theorem older_before (ordered : saves.Pairwise fun save later => save.t ≤ later.t)
    (recent : t ∈ timeSteps (newestSaves maxEntries saves)) {other : Int}
    (present : other ∈ timeSteps saves) (absent : other ∉ timeSteps (newestSaves maxEntries saves)) :
    other < t := by
  obtain ⟨older, split⟩ := newestSaves_split saves maxEntries
  obtain ⟨save, mem, rfl⟩ := mem_timeSteps.mp recent
  obtain ⟨old, isSaved, rfl⟩ := mem_timeSteps.mp present
  rw [split] at isSaved ordered
  have before : old.t ≤ save.t := by
    obtain isOlder | isNewest := mem_append.mp isSaved
    · exact (pairwise_append.mp ordered).2.2 old isOlder save mem
    · exact absurd (mem_timeSteps.mpr ⟨old, isNewest, rfl⟩) absent
  exact lt_of_le_of_ne before fun same => absent (same ▸ mem_timeSteps.mpr ⟨save, mem, rfl⟩)

theorem card_timeSteps_le (saves : List (Save V)) : (timeSteps saves).card ≤ saves.length := by
  apply Nat.le_trans (toFinset_card_le _)
  rw [length_map]

theorem nodup_times_iff (saves : List (Save V)) :
    (saves.map Save.t).Nodup ↔ (timeSteps saves).card = saves.length := by
  rw [← length_map (f := Save.t)]
  constructor
  · exact toFinset_card_of_nodup
  · exact fun same => Multiset.toFinset_card_eq_card_iff_nodup.mp same

/-- How many time steps the newest saves reach. -/
theorem card_eq_iff : (timeSteps (newestSaves maxEntries saves)).card = min maxEntries (timeSteps saves).card ↔
    ((newestSaves maxEntries saves).map Save.t).Nodup ∨
      timeSteps saves ⊆ timeSteps (newestSaves maxEntries saves) := by
  have fewer : (timeSteps (newestSaves maxEntries saves)).card ≤ (timeSteps saves).card :=
    Finset.card_le_card newestSaves_timeSteps
  have all := card_timeSteps_le saves
  have length : (newestSaves maxEntries saves).length = min maxEntries saves.length := by
    rw [newestSaves, length_drop]
    omega
  have some := card_timeSteps_le (newestSaves maxEntries saves)
  have spread := nodup_times_iff (newestSaves maxEntries saves)
  have whole : timeSteps saves ⊆ timeSteps (newestSaves maxEntries saves) ↔
      (timeSteps (newestSaves maxEntries saves)).card = (timeSteps saves).card := by
    constructor
    · intro every
      exact Nat.le_antisymm fewer (Finset.card_le_card every)
    · intro same
      rw [Finset.eq_of_subset_of_card_le newestSaves_timeSteps (Nat.le_of_eq same.symm)]
  rw [spread, whole]
  omega

/-- The entries of the newest saves are the most recent ones exactly when the newest saves leave
no doubt about them. -/
theorem recentPositions_iff (ordered : saves.Pairwise fun save later => save.t ≤ later.t)
    {positions : Int -> Option V} (read : ∀ t, positions t = firstSaved (newestSaves maxEntries saves) t) :
    RecentPositions saves maxEntries positions ↔ Unambiguous saves maxEntries := by
  have present (t : Int) : (positions t).isSome ↔ t ∈ timeSteps (newestSaves maxEntries saves) := by
    rw [read, firstSaved_isSome]
  constructor
  · rintro ⟨keys, isKey, -, card, -, value⟩
    have same : keys = timeSteps (newestSaves maxEntries saves) := by
      ext t
      rw [← isKey, present]
    rw [same] at card value
    refine ⟨fun t => ?_, card_eq_iff.mp card⟩
    by_cases recent : t ∈ timeSteps (newestSaves maxEntries saves)
    · rw [← read, value t recent, lastSaved_newestSaves recent]
    · have none : (newestSaves maxEntries saves).filter (fun save => save.t = t) = [] := by
        apply filter_eq_nil_iff.mpr
        intro save mem same
        exact recent (mem_timeSteps.mpr ⟨save, mem, of_decide_eq_true same⟩)
      rw [firstSaved, lastSaved, none]
      rfl
  · intro unambiguous
    refine ⟨_, present, newestSaves_timeSteps, card_eq_iff.mpr unambiguous.spread, ?_, ?_⟩
    · intro t recent other isSaved absent
      exact older_before ordered recent isSaved absent
    · intro t recent
      rw [read, unambiguous.agree, lastSaved_newestSaves recent]

/-- A query for the positions of a registered node is answered with the positions saved last for
the most recent time steps of the window exactly when the newest saves of the window say the same
at their first and last for each time step and do not crowd a time step out. -/
theorem getNodePositions_recent_iff {repository : Repository D} {e2NodeId : UInt64}
    (registered : isNodeRegistered repository e2NodeId = true)
    {saves : List (Save V)} (ordered : saves.Pairwise fun save later => save.t ≤ later.t)
    {store : Located D V} (done : saveAll ⟨repository, []⟩ saves = some store)
    (fromTime toTime : Int) (maxEntries : UInt64) :
    RecentPositions (savesWithin saves e2NodeId fromTime toTime) maxEntries.toNat
        (getNodePositions store e2NodeId fromTime toTime maxEntries) ↔
      Unambiguous (savesWithin saves e2NodeId fromTime toTime) maxEntries.toNat := by
  have active := active_of_registered registered
  obtain ⟨same, -, -⟩ := saveAll_eq (by exact active) done (Nat.two_pow_pos 63)
  apply recentPositions_iff (ordered.filter _)
  intro t
  rw [getNodePositions, same, if_pos active, if_pos registered,
    getNodeAllPositions_eq active registered ordered done, readPositions_reverse]
  rfl

/-- A repository with one node. -/
def oneNode : Repository Unit :=
  insertNodeRegistration opened 1 true 0

/-- Three positions, two of them for one time step. -/
def sameStepSaves : List (Save (Int × Int × Int)) :=
  [⟨1, (0, 0, 0), 0⟩, ⟨1, (1, 0, 0), 1⟩, ⟨1, (2, 0, 0), 1⟩]

theorem getNodePositions_recent_iff_latest : ∃ store, saveAll ⟨oneNode, []⟩ sameStepSaves = some store ∧
    (RecentPositions (savesWithin sameStepSaves 1 0 1) 1 (getNodePositions store 1 0 1 1) ↔
      Unambiguous (savesWithin sameStepSaves 1 0 1) 1) :=
  have registered : isNodeRegistered oneNode 1 = true := by decide +kernel
  ⟨_, rfl, getNodePositions_recent_iff registered (by decide +kernel) rfl 0 1 1⟩

/-- Of two positions of one time step the query gives the first. -/
theorem first_position_wins : ¬ ∀ (saves : List (Save (Int × Int × Int)))
    (store : Located Unit (Int × Int × Int)), (saves.Pairwise fun save later => save.t ≤ later.t) ->
      saveAll ⟨oneNode, []⟩ saves = some store -> ∀ (fromTime toTime : Int) (maxEntries : UInt64),
        RecentPositions (savesWithin saves 1 fromTime toTime) maxEntries.toNat
          (getNodePositions store 1 fromTime toTime maxEntries) := by
  intro recent
  obtain ⟨keys, isKey, -, -, -, value⟩ := recent sameStepSaves _ (by decide +kernel) rfl 0 1 2
  have member : (1 : Int) ∈ keys := (isKey 1).mp (by decide +kernel)
  exact absurd (value 1 member) (by decide +kernel)

end Ns3.Oran.DataRepository
