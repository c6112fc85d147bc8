import Ns3.Oran.DataRepository.Model
import Ns3.Semantics.Run

/-!
# Registration histories

A session is a repository with the log of the registration calls and the ids they returned.
`Recorded` reads the tables off the log. `registration_consistent_iff` says when each registered
node is listed under its id, and `views_agree_iff` when the two kinds of queries agree.
-/

namespace Ns3.Oran.DataRepository

open Ns3.Semantics Ns3.Sql List Registration

/-- The calls that write `noderegistration`. -/
inductive Call where
  | registerNode (type : NodeType) (id : UInt64)
  | registerNodeLteUe (id imsi : UInt64)
  | registerNodeNrUe (id imsi : UInt64)
  | registerNodeLteEnb (id : UInt64) (cellId : UInt16)
  | registerNodeNrGnb (id : UInt64) (cellId : UInt16)
  | deregisterNode (e2NodeId : UInt64)
  deriving DecidableEq

variable {D : Type}

namespace Call

/-- Run a call at a simulation time. -/
def perform (repository : Repository D) (now : Int) : Call -> Option (Repository D × UInt64)
  | registerNode type id => DataRepository.registerNode repository now type id
  | registerNodeLteUe id imsi => DataRepository.registerNodeLteUe repository now id imsi
  | registerNodeNrUe id imsi => DataRepository.registerNodeNrUe repository now id imsi
  | registerNodeLteEnb id cellId => DataRepository.registerNodeLteEnb repository now id cellId
  | registerNodeNrGnb id cellId => DataRepository.registerNodeNrGnb repository now id cellId
  | deregisterNode e2NodeId => some (DataRepository.deregisterNode repository now e2NodeId)

/-- Whether a call registers or deregisters. -/
def registers : Call -> Bool
  | deregisterNode _ => false
  | _ => true

/-- The node table of a typed registration. -/
def table? : Call -> Option NodeTable
  | registerNodeLteUe .. => some .lteUe
  | registerNodeNrUe .. => some .nrUe
  | registerNodeLteEnb .. => some .lteEnb
  | registerNodeNrGnb .. => some .nrGnb
  | _ => none

/-- The id a call passes. -/
def id : Call -> UInt64
  | registerNode _ id | registerNodeLteUe id _ | registerNodeNrUe id _ | registerNodeLteEnb id _
  | registerNodeNrGnb id _ | deregisterNode id => id

/-- The cell id a base station registers. -/
def cellId? : Call -> Option UInt16
  | registerNodeLteEnb _ cellId | registerNodeNrGnb _ cellId => some cellId
  | _ => none

/-- The row a call writes to a node table. -/
def rowIn (table : NodeTable) : Call -> Option NodeRow
  | registerNodeLteUe id imsi =>
    if table = .lteUe then some ⟨id.toInt64, imsi.toInt64⟩ else none
  | registerNodeNrUe id imsi =>
    if table = .nrUe then some ⟨id.toInt64, imsi.toInt64⟩ else none
  | registerNodeLteEnb id cellId =>
    if table = .lteEnb then some ⟨id.toInt64, bindCellId cellId⟩ else none
  | registerNodeNrGnb id cellId =>
    if table = .nrGnb then some ⟨id.toInt64, bindCellId cellId⟩ else none
  | _ => none

theorem exists_table {call : Call} {cellId : UInt16} (station : call.cellId? = some cellId) :
    ∃ table, call.table? = some table := by
  cases call with
  | registerNodeLteEnb id cell => exact ⟨_, rfl⟩
  | registerNodeNrGnb id cell => exact ⟨_, rfl⟩
  | _ => cases station

end Call

/-- A call that returned. -/
structure Done where
  call : Call
  now : Int
  e2NodeId : UInt64

/-- The row of `noderegistration` a call leaves behind. -/
def Done.registration (done : Done) : Registration :=
  ⟨done.e2NodeId.toInt64, done.call.registers, done.now⟩

/-- A repository with the calls made on it, oldest first. -/
structure Session (D : Type) where
  repository : Repository D
  log : List Done

/-- Calls on a fresh repository at simulation times that never decrease. -/
def registration : System (Session D) (Call × Int) where
  Initial session := session = ⟨opened, []⟩
  step session action :=
    if ∀ done ∈ session.log, done.now ≤ action.2 then
      (action.1.perform session.repository action.2).map fun result =>
        ⟨result.1, session.log ++ [⟨action.1, action.2, result.2⟩]⟩
    else
      none

/-- The rows written to a node table, in the order of the calls. -/
def rowsIn (table : NodeTable) (log : List Done) : List NodeRow :=
  log.filterMap fun done => done.call.rowIn table

/-- What one call does to the tables. -/
structure Performed (call : Call) (now : Int) (repository next : Repository D)
    (e2NodeId : UInt64) : Prop where
  active : next.active = true
  assigned : call.registers = true ->
    ∃ rowid, nodeRowid repository.nodeSequence call.id = some rowid ∧ e2NodeId.toInt64 = rowid ∧ next.nodeSequence =
        if repository.nodeSequence < rowid then rowid else repository.nodeSequence
  released : call.registers = false -> e2NodeId = call.id ∧ next.nodeSequence = repository.nodeSequence
  noderegistration : next.noderegistration = repository.noderegistration ++ [⟨e2NodeId.toInt64, call.registers, now⟩]
  nodes : ∀ table, next.nodes table = match call.rowIn table with
    | none => repository.nodes table
    | some row => (repository.nodes table).insertOrReplace row

variable {repository next : Repository D} {now : Int} {e2NodeId : UInt64} {table : NodeTable}

section

variable (active : repository.active = true)
include active

theorem registerNode_eq_some {type : NodeType} {id : UInt64}
    (success : registerNode repository now type id = some (next, e2NodeId)) :
    ∃ rowid, nodeRowid repository.nodeSequence id = some rowid ∧ e2NodeId = rowid.toUInt64 ∧
      next = insertNodeRegistration (insertNode repository rowid type) e2NodeId true now := by
  simp only [registerNode, active, if_true] at success
  split at success
  · simp at success
  · next rowid found =>
      obtain ⟨rfl, rfl⟩ := Prod.mk.inj (Option.some.inj success)
      exact ⟨rowid, found, rfl, rfl⟩

theorem registerTyped_eq_some {id : UInt64} {key : Int64}
    (success : registerTyped repository now table id key = some (next, e2NodeId)) :
    ∃ registered, registerNode repository now table.nodeType id = some (registered, e2NodeId) ∧
      next = insertTyped registered table ⟨id.toInt64, key⟩ := by
  simp only [registerTyped, active, if_true] at success
  split at success
  · simp at success
  · next registered returned found =>
      obtain ⟨rfl, rfl⟩ := Prod.mk.inj (Option.some.inj success)
      exact ⟨registered, found, rfl⟩

variable {call : Call}

theorem Performed.ofTyped {id : UInt64} {key : Int64}
    (success : registerTyped repository now table id key = some (next, e2NodeId))
    (registers : call.registers = true) (passed : call.id = id)
    (rowIn : ∀ other, call.rowIn other = if other = table then some ⟨id.toInt64, key⟩ else none) :
    Performed call now repository next e2NodeId := by
  obtain ⟨registered, inner, rfl⟩ := registerTyped_eq_some active success
  obtain ⟨rowid, found, rfl, rfl⟩ := registerNode_eq_some active inner
  refine ⟨active, fun _ => ⟨rowid, passed ▸ found, by simp, rfl⟩, ?_, ?_, ?_⟩
  · simp [registers]
  · rw [registers]
    rfl
  · intro other
    rw [rowIn]
    by_cases same : other = table
    · subst same
      simp [insertTyped, insertNodeRegistration, insertNode]
    · simp [insertTyped, insertNodeRegistration, insertNode, same]

theorem Performed.ofPerform
    (success : call.perform repository now = some (next, e2NodeId)) :
    Performed call now repository next e2NodeId := by
  cases call with
  | registerNode type id =>
    obtain ⟨rowid, found, rfl, rfl⟩ := registerNode_eq_some active success
    exact ⟨active, fun _ => ⟨rowid, found, by simp, rfl⟩, nofun, rfl, fun _ => rfl⟩
  | registerNodeLteUe id imsi => exact .ofTyped active success rfl rfl fun _ => rfl
  | registerNodeNrUe id imsi => exact .ofTyped active success rfl rfl fun _ => rfl
  | registerNodeLteEnb id cellId => exact .ofTyped active success rfl rfl fun _ => rfl
  | registerNodeNrGnb id cellId => exact .ofTyped active success rfl rfl fun _ => rfl
  | deregisterNode id =>
    simp only [Call.perform, deregisterNode, active] at success
    obtain ⟨rfl, rfl⟩ := Prod.mk.inj (Option.some.inj success)
    exact ⟨active, nofun, fun _ => ⟨rfl, rfl⟩, rfl, fun _ => rfl⟩

end

/-- The tables hold exactly what the log says was written. -/
structure Recorded (session : Session D) : Prop where
  active : session.repository.active = true
  noderegistration : session.repository.noderegistration = session.log.map Done.registration
  nodes : ∀ table, session.repository.nodes table = .replay (rowsIn table session.log)

variable {session : Session D}

theorem step_cases {call : Call} {next : Session D} (moves : registration.step session (call, now) = some next) :
    ∃ repository e2NodeId, call.perform session.repository now = some (repository, e2NodeId) ∧
      (∀ done ∈ session.log, done.now ≤ now) ∧
      next = ⟨repository, session.log ++ [⟨call, now, e2NodeId⟩]⟩ := by
  simp only [registration] at moves
  split at moves
  · next ordered =>
      obtain ⟨⟨repository, e2NodeId⟩, success, rfl⟩ := Option.map_eq_some_iff.mp moves
      exact ⟨repository, e2NodeId, success, ordered, rfl⟩
  · simp at moves

theorem Recorded.step {next : Session D} {action : Call × Int}
    (recorded : Recorded session) (moves : registration.step session action = some next) :
    Recorded next := by
  obtain ⟨repository, e2NodeId, success, -, rfl⟩ := step_cases moves
  have performed := Performed.ofPerform recorded.active success
  refine ⟨performed.active, ?_, ?_⟩
  · simp [performed.noderegistration, recorded.noderegistration, Done.registration]
  · intro table
    rw [performed.nodes, recorded.nodes]
    cases written : action.1.rowIn table with
    | none => simp [rowsIn, written]
    | some row => simp [rowsIn, written]

theorem recorded (reachable : registration.Reachable session) : Recorded session := by
  apply reachable.invariant Recorded
  · rintro _ rfl
    exact ⟨rfl, rfl, fun _ => rfl⟩
  · intro session action next holds moves
    exact holds.step moves

/-- A call on a node in the latest time step of all calls on it. -/
def LatestOf (log : List Done) (e2NodeId : UInt64) (done : Done) : Prop :=
  done ∈ log ∧ done.e2NodeId = e2NodeId ∧ ∀ other ∈ log, other.e2NodeId = e2NodeId -> other.now ≤ done.now

/-- A row of a node table that no later call replaced. -/
def Kept (log : List Done) (table : NodeTable) (row : NodeRow) : Prop :=
  ∃ earlier done later, log = earlier ++ done :: later ∧ done.call.rowIn table = some row ∧
    ∀ other ∈ later, ∀ newer, other.call.rowIn table = some newer -> replaces table newer row = false

/-- The registrations of one node. -/
def registrationsOf (repository : Repository D) (e2NodeId : UInt64) : List Registration :=
  repository.noderegistration.filter fun row => row.nodeid = e2NodeId.toInt64

/-- The registrations of one node as an enumeration joins them. -/
def joinedOf (repository : Repository D) (table : NodeTable) (e2NodeId : UInt64) : List Registration :=
  (joinLeft repository.noderegistration (repository.nodes table).rows Registration.nodeid
    NodeRow.nodeid).filter fun row => row.nodeid = e2NodeId.toInt64

theorem toUInt64_eq_iff {rowid : Int64} {id : UInt64} : rowid.toUInt64 = id ↔ rowid = id.toInt64 := by
  constructor
  · rintro rfl
    simp
  · rintro rfl
    simp

theorem mem_requests {engine : Engine} (active : repository.active = true) :
    e2NodeId ∈ (getLastRegistrationRequests engine repository).map Prod.fst ↔
      ∃ row, (engine .getAllLastRegistrationTimes).pick (registrationsOf repository e2NodeId) =
        some row ∧ row.registered := by
  rw [registrationsOf, ← mem_groupMax]
  simp [getLastRegistrationRequests, active, toUInt64_eq_iff]

theorem mem_enumeration {engine : Engine} (active : repository.active = true) :
    e2NodeId ∈ enumeration engine repository table ↔
      ∃ row, (engine (.getE2NodeIds table)).pick (joinedOf repository table e2NodeId) =
        some row ∧ row.registered := by
  rw [joinedOf, ← mem_groupMax, enumeration_eq]
  simp [getE2NodeIds, active, toUInt64_eq_iff]

theorem isNodeRegistered_iff (active : repository.active = true) : isNodeRegistered repository e2NodeId ↔
    ∃ row, newest simulationtime (registrationsOf repository e2NodeId) = some row ∧
      row.registered := by
  simp only [isNodeRegistered, active, if_true, checkNodeRegistered, registrationsOf]
  split
  · next missing => simp [missing]
  · next row found => simp [found]

variable {row : Registration}

/-- A node in a table is joined with all its registrations, any other with none. -/
theorem mem_joinedOf : row ∈ joinedOf repository table e2NodeId ↔ row ∈ registrationsOf repository e2NodeId ∧
    ∃ node ∈ (repository.nodes table).rows, node.nodeid = e2NodeId.toInt64 := by
  simp only [joinedOf, registrationsOf, mem_filter, mem_joinLeft, decide_eq_true_eq]
  constructor
  · rintro ⟨⟨mem, node, inTable, joined⟩, ofNode⟩
    exact ⟨⟨mem, ofNode⟩, node, inTable, joined.trans ofNode⟩
  · rintro ⟨⟨mem, ofNode⟩, node, inTable, nodeid⟩
    exact ⟨⟨mem, node, inTable, nodeid.trans ofNode.symm⟩, ofNode⟩

theorem mem_nodes_iff (recorded : Recorded session) {row : NodeRow} :
    row ∈ (session.repository.nodes table).rows ↔ Kept session.log table row := by
  rw [recorded.nodes]
  exact KeyedTable.mem_replay_filterMap

theorem mem_registrationsOf (recorded : Recorded session) : row ∈ registrationsOf session.repository e2NodeId ↔
    ∃ done ∈ session.log, done.e2NodeId = e2NodeId ∧ done.registration = row := by
  simp only [registrationsOf, recorded.noderegistration, mem_filter, List.mem_map, decide_eq_true_eq]
  constructor
  · rintro ⟨⟨done, mem, rfl⟩, ofNode⟩
    exact ⟨done, mem, toUInt64_eq_iff.mpr ofNode, rfl⟩
  · rintro ⟨done, mem, rfl, rfl⟩
    exact ⟨⟨done, mem, rfl⟩, rfl⟩

/-- The rows a bare column may come from are those of the node's latest calls. -/
theorem atLatest_iff (recorded : Recorded session) :
    AtLatest simulationtime (registrationsOf session.repository e2NodeId) row ↔
      ∃ done, LatestOf session.log e2NodeId done ∧ done.registration = row := by
  simp only [AtLatest, mem_registrationsOf recorded]
  constructor
  · rintro ⟨⟨done, mem, ofNode, rfl⟩, latest⟩
    exact ⟨done, ⟨mem, ofNode, fun other inLog same => latest _ ⟨other, inLog, same, rfl⟩⟩, rfl⟩
  · rintro ⟨done, ⟨mem, ofNode, latest⟩, rfl⟩
    refine ⟨⟨done, mem, ofNode, rfl⟩, ?_⟩
    rintro _ ⟨other, inLog, same, rfl⟩
    exact latest other inLog same

/-- The queries that tell whether a node is registered agree on it. -/
structure ViewsAgree (engine : Engine) (repository : Repository D) (e2NodeId : UInt64) : Prop where
  requests : isNodeRegistered repository e2NodeId ↔
    e2NodeId ∈ (getLastRegistrationRequests engine repository).map Prod.fst
  enumerations : ∀ table, (∃ row ∈ (repository.nodes table).rows, row.nodeid = e2NodeId.toInt64) ->
    (isNodeRegistered repository e2NodeId ↔ e2NodeId ∈ enumeration engine repository table)

/-- If all latest rows agree, any of them tells what the newest one does. -/
theorem pick_iff_newest {group joined : List Registration}
    (bare : BareColumn simulationtime) (same : ∀ row, row ∈ joined ↔ row ∈ group)
    (uniform : ∀ row other, AtLatest simulationtime group row ->
      AtLatest simulationtime group other -> row.registered = other.registered) :
    (∃ row, bare.pick joined = some row ∧ row.registered) ↔
      ∃ row, newest simulationtime group = some row ∧ row.registered := by
  cases picked : bare.pick joined with
  | none =>
    obtain rfl := bare.total picked
    have empty : group = [] := eq_nil_iff_forall_not_mem.mpr fun row mem =>
      not_mem_nil ((same row).mpr mem)
    simp [empty, newest]
  | some row =>
    have latest := (AtLatest.congr same row).mp (bare.attains picked)
    cases found : newest simulationtime group with
    | none =>
      obtain rfl := newest_eq_none_iff.mp found
      cases latest.1
    | some last => simp [uniform row last latest (newest_atLatest found)]

/-- The registration queries agree on a node, whatever rows the engine reads
bare columns from, exactly when no call on the node deregistered it in the time
step another one registered it, or that step is not its latest. -/
theorem views_agree_iff {session : Session D} (reachable : registration.Reachable session) (e2NodeId : UInt64) :
    (∀ engine, ViewsAgree engine session.repository e2NodeId) ↔
      ∀ done other, LatestOf session.log e2NodeId done -> LatestOf session.log e2NodeId other ->
        done.call.registers = other.call.registers := by
  have recorded := recorded reachable
  constructor
  · intro agree
    have tells : ∀ done, LatestOf session.log e2NodeId done ->
        (isNodeRegistered session.repository e2NodeId ↔ done.call.registers) := by
      intro done latestCall
      have latest := (atLatest_iff recorded).mpr ⟨done, latestCall, rfl⟩
      rw [(agree fun _ => .choosing _ _ latest).requests, mem_requests recorded.active]
      simp [BareColumn.choosing_pick, Done.registration]
    intro done other latest otherLatest
    exact Bool.eq_iff_iff.mpr ((tells done latest).symm.trans (tells other otherLatest))
  · intro uniformCalls engine
    have uniform : ∀ row other,
        AtLatest Registration.simulationtime (registrationsOf session.repository e2NodeId) row ->
        AtLatest Registration.simulationtime (registrationsOf session.repository e2NodeId) other ->
          row.registered = other.registered := by
      intro row other latest otherLatest
      obtain ⟨done, latestCall, rfl⟩ := (atLatest_iff recorded).mp latest
      obtain ⟨otherDone, otherCall, rfl⟩ := (atLatest_iff recorded).mp otherLatest
      exact uniformCalls done otherDone latestCall otherCall
    refine ⟨?_, ?_⟩
    · rw [isNodeRegistered_iff recorded.active, mem_requests recorded.active]
      exact (pick_iff_newest _ (fun _ => Iff.rfl) uniform).symm
    · intro table inTable
      rw [isNodeRegistered_iff recorded.active, mem_enumeration recorded.active]
      apply Iff.symm
      apply pick_iff_newest _ _ uniform
      intro row
      rw [mem_joinedOf]
      exact and_iff_left inTable

/-- The session a list of calls on a fresh repository leads to. -/
def sessionAfter (calls : List (Call × Int)) : Session Unit :=
  (registration.exec ⟨opened, []⟩ calls).getD ⟨opened, []⟩

/-- A UE that is registered and deregistered at time 5. -/
def sameStep : Session Unit :=
  sessionAfter [(.registerNodeNrUe 0 1, 5), (.deregisterNode 1, 5)]

theorem sameStep_reachable : registration.Reachable sameStep :=
  System.reachable_of_exec rfl [(.registerNodeNrUe 0 1, 5), (.deregisterNode 1, 5)] rfl

theorem sameStep_views_agree_iff : (∀ engine, ViewsAgree engine sameStep.repository 1) ↔
    ∀ done other, LatestOf sameStep.log 1 done -> LatestOf sameStep.log 1 other ->
      done.call.registers = other.call.registers :=
  views_agree_iff sameStep_reachable 1

/-- `IsNodeRegistered` reads the deregistration, which was inserted last; an
engine may read the bare column from the registration. -/
theorem same_step_views_disagree : ¬ ∀ session : Session Unit, registration.Reachable session ->
    ∀ engine e2NodeId, ViewsAgree engine session.repository e2NodeId := by
  intro agree
  have latest : AtLatest Registration.simulationtime (registrationsOf sameStep.repository 1) ⟨1, true, 5⟩ := by
    refine ⟨by decide, ?_⟩
    decide
  have requests := (agree sameStep sameStep_reachable (fun _ => .choosing _ _ latest) 1).requests
  rw [mem_requests rfl] at requests
  exact absurd (requests.mpr ⟨_, rfl, rfl⟩) (by decide)

/-- A typed registration returned the id and the node was not deregistered since. -/
def StillRegistered (log : List Done) (table : NodeTable) (e2NodeId : UInt64) : Prop :=
  ∃ earlier done later, log = earlier ++ done :: later ∧ done.call.table? = some table ∧
    done.e2NodeId = e2NodeId ∧ ∀ other ∈ later, other.call ≠ .deregisterNode e2NodeId

/-- The look-up of the cell a base station registered. -/
def cellInfoOf (repository : Repository D) (done : Done) (cellId : UInt16) : Prop :=
  match done.call with
  | .registerNodeLteEnb .. => getLteEnbCellInfo repository done.e2NodeId = (true, cellId)
  | .registerNodeNrGnb .. => getNrGnbCellInfo repository done.e2NodeId = (true, cellId)
  | _ => True

/-- What registration promises once a call has returned. -/
structure Consistent (engine : Engine) (session : Session D) : Prop where
  listed : ∀ table e2NodeId, StillRegistered session.log table e2NodeId ->
    e2NodeId ∈ enumeration engine session.repository table
  cellInfo : ∀ earlier done cellId, session.log = earlier ++ [done] ->
    done.call.cellId? = some cellId -> cellInfoOf session.repository done cellId

/-- The id was passed to a call of the table whose row is still there, and no
deregistration of the node shares the time step of its latest call. -/
structure Backed (log : List Done) (table : NodeTable) (e2NodeId : UInt64) : Prop where
  passed : ∃ row, Kept log table row ∧ row.nodeid = e2NodeId.toInt64
  latest : ∀ done, LatestOf log e2NodeId done -> done.call.registers = true

section

variable (recorded : Recorded session)
include recorded

theorem StillRegistered.mem_registrationsOf
    (registered : StillRegistered session.log table e2NodeId) :
    ∃ row, row ∈ registrationsOf session.repository e2NodeId := by
  obtain ⟨earlier, done, later, split, -, returned, -⟩ := registered
  exact ⟨done.registration, (DataRepository.mem_registrationsOf recorded).mpr ⟨done, by simp [split], returned, rfl⟩⟩

/-- A node is listed under every engine exactly when its row is there and its
latest calls all register it. -/
theorem forall_listed_iff (registered : StillRegistered session.log table e2NodeId) :
    (∀ engine, e2NodeId ∈ enumeration engine session.repository table) ↔ Backed session.log table e2NodeId := by
  have single : (∀ engine, e2NodeId ∈ enumeration engine session.repository table) ↔
      ∀ bare : BareColumn simulationtime, ∃ row, bare.pick (joinedOf session.repository table e2NodeId) = some row ∧
          row.registered := by
    simp only [mem_enumeration recorded.active]
    exact ⟨fun every bare => every fun _ => bare, fun every engine => every _⟩
  rw [single, BareColumn.forall_pick_iff]
  constructor
  · rintro ⟨nonempty, latest⟩
    obtain ⟨joined, mem⟩ := exists_mem_of_ne_nil _ nonempty
    obtain ⟨-, node, inTable, nodeid⟩ := mem_joinedOf.mp mem
    refine ⟨⟨node, (mem_nodes_iff recorded).mp inTable, nodeid⟩, ?_⟩
    intro done latestCall
    apply latest done.registration
    rw [AtLatest.congr fun row => mem_joinedOf.trans (and_iff_left ⟨node, inTable, nodeid⟩)]
    exact (atLatest_iff recorded).mpr ⟨done, latestCall, rfl⟩
  · rintro ⟨⟨node, kept, nodeid⟩, latest⟩
    have same : ∀ row, row ∈ joinedOf session.repository table e2NodeId ↔
        row ∈ registrationsOf session.repository e2NodeId := fun row =>
      mem_joinedOf.trans (and_iff_left ⟨node, (mem_nodes_iff recorded).mpr kept, nodeid⟩)
    obtain ⟨row, mem⟩ := registered.mem_registrationsOf recorded
    refine ⟨ne_nil_of_mem ((same row).mpr mem), ?_⟩
    intro row latestRow
    obtain ⟨done, latestCall, rfl⟩ := (atLatest_iff recorded).mp ((AtLatest.congr same row).mp latestRow)
    exact latest done latestCall

/-- The cell look-up of a registered node returns what its row says. -/
theorem getCellInfo_eq_iff {cellId : UInt16}
    (registered : isNodeRegistered session.repository e2NodeId = true) :
    getCellInfo table session.repository e2NodeId = (true, cellId) ↔
      ∃ row, Kept session.log table row ∧ row.nodeid = e2NodeId.toInt64 ∧ columnCellId row.key = cellId := by
  simp only [getCellInfo, recorded.active, registered, if_true, ← mem_nodes_iff recorded]
  split
  · next missing =>
      simp only [getLast?_eq_none_iff, filter_eq_nil_iff, decide_eq_true_eq] at missing
      simp only [Prod.mk.injEq, Bool.false_eq_true, false_and, false_iff]
      rintro ⟨row, inTable, nodeid, -⟩
      exact missing row inTable nodeid
  · next row found =>
      obtain ⟨inTable, nodeid⟩ := mem_filter.mp (mem_of_getLast? found)
      simp only [decide_eq_true_eq] at nodeid
      simp only [Prod.mk.injEq, true_and]
      constructor
      · intro sameCell
        exact ⟨row, inTable, nodeid, sameCell⟩
      · rintro ⟨other, otherInTable, otherNodeid, otherCell⟩
        have equal : row = other := KeyedTable.eq_of_conflicts (replaces_symm table) inTable
          otherInTable (by simp [replaces, nodeid, otherNodeid])
        exact equal ▸ otherCell

theorem Backed.isNodeRegistered (backed : Backed session.log table e2NodeId)
    (registered : StillRegistered session.log table e2NodeId) :
    isNodeRegistered session.repository e2NodeId = true := by
  obtain ⟨row, mem⟩ := registered.mem_registrationsOf recorded
  rw [isNodeRegistered_iff recorded.active]
  cases found : newest simulationtime (registrationsOf session.repository e2NodeId) with
  | none =>
    rw [newest_eq_none_iff.mp found] at mem
    cases mem
  | some last =>
    obtain ⟨done, latestCall, rfl⟩ := (atLatest_iff recorded).mp (newest_atLatest found)
    exact ⟨_, rfl, backed.latest done latestCall⟩

end

theorem cellInfoOf_iff {done : Done} {cellId registered : UInt16} (inTable : done.call.table? = some table)
    (station : done.call.cellId? = some registered) :
    cellInfoOf repository done cellId ↔ getCellInfo table repository done.e2NodeId = (true, cellId) := by
  obtain ⟨call, now, e2NodeId⟩ := done
  cases call with
  | registerNodeLteEnb id cell => cases inTable; rfl
  | registerNodeNrGnb id cell => cases inTable; rfl
  | _ => cases station

/-- Registration is consistent after a call, whatever the engine, exactly when
every node still registered has been registered under its own id as well, and the
base station registered last is stored there with its cell. -/
theorem registration_consistent_iff {session : Session D} (reachable : registration.Reachable session) :
    (∀ engine, Consistent engine session) ↔ (∀ table e2NodeId, StillRegistered session.log table e2NodeId ->
        Backed session.log table e2NodeId) ∧
      ∀ earlier done table cellId, session.log = earlier ++ [done] ->
        done.call.table? = some table -> done.call.cellId? = some cellId ->
          ∃ row, Kept session.log table row ∧ row.nodeid = done.e2NodeId.toInt64 ∧ columnCellId row.key = cellId := by
  have recorded := recorded reachable
  have lastRegistered : ∀ {earlier done table}, session.log = earlier ++ [done] ->
      done.call.table? = some table -> StillRegistered session.log table done.e2NodeId :=
    fun split inTable => ⟨_, _, [], split, inTable, rfl, by simp⟩
  constructor
  · intro consistent
    have backed : ∀ table e2NodeId, StillRegistered session.log table e2NodeId ->
        Backed session.log table e2NodeId := fun table e2NodeId registered =>
      (forall_listed_iff recorded registered).mp fun engine =>
        (consistent engine).listed table e2NodeId registered
    refine ⟨backed, ?_⟩
    intro earlier done table cellId split inTable station
    have registered := lastRegistered split inTable
    have looked := (consistent fun _ => .last).cellInfo earlier done cellId split station
    exact (getCellInfo_eq_iff recorded ((backed _ _ registered).isNodeRegistered recorded registered)).mp
        ((cellInfoOf_iff inTable station).mp looked)
  · rintro ⟨backed, stored⟩ engine
    refine ⟨?_, ?_⟩
    · intro table e2NodeId registered
      exact (forall_listed_iff recorded registered).mpr (backed table e2NodeId registered) engine
    · intro earlier done cellId split station
      obtain ⟨table, inTable⟩ := Call.exists_table station
      have registered := lastRegistered split inTable
      rw [cellInfoOf_iff inTable station, getCellInfo_eq_iff recorded
        ((backed _ _ registered).isNodeRegistered recorded registered)]
      exact stored earlier done table cellId split inTable station

/-- A gNB that is registered as a new node and then again under its id. -/
def registeredTwice : Session Unit :=
  sessionAfter [(.registerNodeNrGnb 0 7, 1), (.registerNodeNrGnb 1 7, 2)]

theorem registeredTwice_consistent_iff : (∀ engine, Consistent engine registeredTwice) ↔
    (∀ table e2NodeId, StillRegistered registeredTwice.log table e2NodeId ->
      Backed registeredTwice.log table e2NodeId) ∧
    ∀ earlier done table cellId, registeredTwice.log = earlier ++ [done] ->
      done.call.table? = some table -> done.call.cellId? = some cellId ->
        ∃ row, Kept registeredTwice.log table row ∧ row.nodeid = done.e2NodeId.toInt64 ∧
          columnCellId row.key = cellId :=
  registration_consistent_iff
    (System.reachable_of_exec rfl [(.registerNodeNrGnb 0 7, 1), (.registerNodeNrGnb 1 7, 2)] rfl)

/-- The first registration: the gNB gets id 1, and its row is stored under id 0. -/
def registeredOnce : Session Unit :=
  sessionAfter [(.registerNodeNrGnb 0 7, 1)]

theorem new_gnb_not_listed : ¬ ∀ session : Session Unit, registration.Reachable session ->
    ∀ engine, Consistent engine session := by
  intro consistent
  have reachable : registration.Reachable registeredOnce :=
    System.reachable_of_exec rfl [(.registerNodeNrGnb 0 7, 1)] rfl
  have listed := (consistent registeredOnce reachable fun _ => .last).listed .nrGnb 1
    ⟨[], ⟨.registerNodeNrGnb 0 7, 1, 1⟩, [], rfl, rfl, rfl, by simp⟩
  exact absurd listed (by decide)

end Ns3.Oran.DataRepository
