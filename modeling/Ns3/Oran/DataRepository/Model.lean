import Ns3.Sql.Table

/-!
# The SQLite data repository

The tables and statements of `OranDataRepositorySqlite` for registration, cell information and RSRP
measurements. What is bound with `sqlite3_bind_int64` is 64-bit signed; `uint64_t` ids are read back
through that type. `entryid` is the place of a row, and no foreign key is checked. A failing
statement is `none`.
-/

namespace Ns3.Oran.DataRepository

open Ns3.Sql

/-- `OranNearRtRic::NodeType`. -/
inductive NodeType where
  | wired
  | lteUe
  | lteEnb
  | nrUe
  | nrGnb
  deriving DecidableEq

/-- The tables `lteue`, `lteenb`, `nrue` and `nrgnb`. -/
inductive NodeTable where
  | lteUe
  | lteEnb
  | nrUe
  | nrGnb
  deriving DecidableEq

namespace NodeTable

/-- The type of the nodes a table holds. -/
def nodeType : NodeTable -> NodeType
  | lteUe => .lteUe
  | lteEnb => .lteEnb
  | nrUe => .nrUe
  | nrGnb => .nrGnb

/-- `imsi` is `UNIQUE`; `cellid` is not. -/
def keyUnique : NodeTable -> Bool
  | lteUe | nrUe => true
  | lteEnb | nrGnb => false

end NodeTable

/-- The two radio access technologies that have tables of their own. -/
inductive Technology where
  | lte
  | nr
  deriving DecidableEq

/-- A row of `node`. -/
structure Node where
  nodeid : Int64
  nodetype : NodeType
  deriving DecidableEq

/-- A row of `noderegistration`. -/
structure Registration where
  nodeid : Int64
  registered : Bool
  simulationtime : Int
  deriving DecidableEq

/-- A row of one of the node tables; `key` is its `imsi` or `cellid`. -/
structure NodeRow where
  nodeid : Int64
  key : Int64
  deriving DecidableEq

/-- A row of `lteuecell` or `nruecell`. -/
structure UeCell where
  nodeid : Int64
  cellid : UInt16
  rnti : UInt16
  simulationtime : Int
  deriving DecidableEq

/-- A row of `lteuersrprsrq` or `nruersrprsrq`, over any type of measured values. -/
structure RsrpRsrq (D : Type) where
  nodeid : Int64
  simulationtime : Int
  rnti : UInt16
  cellid : UInt16
  rsrp : D
  rsrq : D
  serving : Bool
  ccid : UInt8
  deriving DecidableEq

/-- Which rows of `node` an `INSERT OR REPLACE` deletes. -/
def sameNode (row old : Node) : Bool :=
  row.nodeid = old.nodeid

/-- Which rows of a node table an `INSERT OR REPLACE` deletes. -/
def replaces (table : NodeTable) (row old : NodeRow) : Bool :=
  row.nodeid = old.nodeid || (table.keyUnique && row.key = old.key)

theorem replaces_symm (table : NodeTable) (left right : NodeRow) :
    replaces table left right = replaces table right left := by
  simp only [replaces, eq_comm]

/-- `OranDataRepositorySqlite` and its database. `nodeSequence` is the entry of
`node` in `sqlite_sequence`. -/
structure Repository (D : Type) where
  active : Bool
  nodeSequence : Int64
  node : KeyedTable sameNode
  noderegistration : List Registration
  nodes : (table : NodeTable) -> KeyedTable (replaces table)
  uecell : Technology -> List UeCell
  uersrprsrq : Technology -> List (RsrpRsrq D)

variable {D : Type}

/-- The database `InitDb` creates on activation. -/
def opened : Repository D where
  active := true
  nodeSequence := 0
  node := .empty
  noderegistration := []
  nodes := fun _ => .empty
  uecell := fun _ => []
  uersrprsrq := fun _ => []

/-- The queries that read a bare column next to `MAX`. -/
inductive BareQuery where
  | getAllLastRegistrationTimes
  | getE2NodeIds (table : NodeTable)

/-- The SQL engine: the row each of these queries reads its bare columns from. -/
abbrev Engine := BareQuery -> BareColumn Registration.simulationtime

/-- `sqlite3_bind_int`: the low 32 bits, sign-extended. -/
def bindInt (value : UInt64) : Int64 :=
  value.toUInt32.toInt32.toInt64

variable (repository : Repository D)

variable (e2NodeId : UInt64)

/-- `CHECK_NODE_REGISTERED`. -/
def checkNodeRegistered : Option Registration :=
  newest Registration.simulationtime (repository.noderegistration.filter fun row => row.nodeid = e2NodeId.toInt64)

/-- `OranDataRepositorySqlite::IsNodeRegistered`. -/
def isNodeRegistered : Bool :=
  if repository.active then
    match checkNodeRegistered repository e2NodeId with
    | none => false
    | some row => row.registered
  else
    false

/-- `INSERT_NODE_REGISTRATION`. -/
def insertNodeRegistration (registered : Bool)
    (now : Int) : Repository D :=
  { repository with
    noderegistration := repository.noderegistration ++ [⟨e2NodeId.toInt64, registered, now⟩] }

/-- The row id of an insert without one into an `AUTOINCREMENT` table; a full
table fails with `SQLITE_FULL`. -/
def nextRowid (sequence : Int64) : Option Int64 :=
  if sequence = Int64.maxValue then none else some (sequence + 1)

/-- The row id `INSERT_NODE_ADD` or `INSERT_NODE_UPDATE` leaves in
`sqlite3_last_insert_rowid`. -/
def nodeRowid (sequence : Int64) (id : UInt64) : Option Int64 :=
  if id = 0 then nextRowid sequence else some (bindInt id)

/-- `INSERT_NODE_ADD` and `INSERT_NODE_UPDATE`: the row replaces an older one of
its row id, and the sequence never falls behind the row ids. -/
def insertNode (rowid : Int64) (type : NodeType) : Repository D :=
  { repository with
    nodeSequence := if repository.nodeSequence < rowid then rowid else repository.nodeSequence
    node := repository.node.insertOrReplace ⟨rowid, type⟩ }

variable (now : Int)

/-- `OranDataRepositorySqlite::RegisterNode`. -/
def registerNode (type : NodeType) (id : UInt64) : Option (Repository D × UInt64) :=
  if repository.active then
    match nodeRowid repository.nodeSequence id with
    | none => none
    | some rowid =>
      let e2NodeId := rowid.toUInt64
      some (insertNodeRegistration (insertNode repository rowid type) e2NodeId true now, e2NodeId)
  else
    some (repository, 0)

/-- The `INSERT OR REPLACE` into a node table. -/
def insertTyped (table : NodeTable) (row : NodeRow) : Repository D :=
  { repository with
    nodes := Function.update repository.nodes table ((repository.nodes table).insertOrReplace row) }

/-- The common body of the four typed registrations. The row of the node table
is bound to the `id` that was passed. -/
def registerTyped (table : NodeTable) (id : UInt64)
    (key : Int64) : Option (Repository D × UInt64) :=
  if repository.active then
    match registerNode repository now table.nodeType id with
    | none => none
    | some (registered, e2NodeId) =>
      some (insertTyped registered table ⟨id.toInt64, key⟩, e2NodeId)
  else
    some (repository, 0)

/-- How a `uint16_t` cell id is bound. -/
def bindCellId (cellId : UInt16) : Int64 :=
  cellId.toUInt64.toInt64

/-- How a cell id is read back. -/
def columnCellId (column : Int64) : UInt16 :=
  column.toUInt64.toUInt16

/-- `OranDataRepositorySqlite::RegisterNodeLteUe`. -/
def registerNodeLteUe (id imsi : UInt64) : Option (Repository D × UInt64) :=
  registerTyped repository now .lteUe id imsi.toInt64

/-- `OranDataRepositorySqlite::RegisterNodeNrUe`. -/
def registerNodeNrUe (id imsi : UInt64) : Option (Repository D × UInt64) :=
  registerTyped repository now .nrUe id imsi.toInt64

/-- `OranDataRepositorySqlite::RegisterNodeLteEnb`. -/
def registerNodeLteEnb (id : UInt64) (cellId : UInt16) : Option (Repository D × UInt64) :=
  registerTyped repository now .lteEnb id (bindCellId cellId)

/-- `OranDataRepositorySqlite::RegisterNodeNrGnb`. -/
def registerNodeNrGnb (id : UInt64) (cellId : UInt16) : Option (Repository D × UInt64) :=
  registerTyped repository now .nrGnb id (bindCellId cellId)

/-- `OranDataRepositorySqlite::DeregisterNode`. -/
def deregisterNode (e2NodeId : UInt64) : Repository D × UInt64 :=
  if repository.active then
    (insertNodeRegistration repository e2NodeId false now, e2NodeId)
  else
    (repository, 0)

variable (engine : Engine)

/-- `OranDataRepositorySqlite::GetLastRegistrationRequests`. -/
def getLastRegistrationRequests (repository : Repository D) : List (UInt64 × Int) :=
  if repository.active then
    (groupMax (engine .getAllLastRegistrationTimes) Registration.nodeid Registration.registered
      repository.noderegistration).map fun entry => (entry.1.toUInt64, entry.2)
  else
    []

/-- The common body of the four enumerations. -/
def getE2NodeIds (table : NodeTable) (repository : Repository D) : List UInt64 :=
  if repository.active then
    (groupMax (engine (.getE2NodeIds table)) Registration.nodeid Registration.registered
      (joinLeft repository.noderegistration (repository.nodes table).rows Registration.nodeid
        NodeRow.nodeid)).map fun entry => entry.1.toUInt64
  else
    []

/-- `OranDataRepositorySqlite::GetLteUeE2NodeIds`. -/
def getLteUeE2NodeIds (repository : Repository D) : List UInt64 :=
  getE2NodeIds engine .lteUe repository

/-- `OranDataRepositorySqlite::GetNrUeE2NodeIds`. -/
def getNrUeE2NodeIds (repository : Repository D) : List UInt64 :=
  getE2NodeIds engine .nrUe repository

/-- `OranDataRepositorySqlite::GetLteEnbE2NodeIds`. -/
def getLteEnbE2NodeIds (repository : Repository D) : List UInt64 :=
  getE2NodeIds engine .lteEnb repository

/-- `OranDataRepositorySqlite::GetNrGnbE2NodeIds`. -/
def getNrGnbE2NodeIds (repository : Repository D) : List UInt64 :=
  getE2NodeIds engine .nrGnb repository

/-- The enumeration of a node table under its source name. -/
def enumeration (repository : Repository D) : NodeTable -> List UInt64
  | .lteUe => getLteUeE2NodeIds engine repository
  | .nrUe => getNrUeE2NodeIds engine repository
  | .lteEnb => getLteEnbE2NodeIds engine repository
  | .nrGnb => getNrGnbE2NodeIds engine repository

theorem enumeration_eq (repository : Repository D) (table : NodeTable) :
    enumeration engine repository table = getE2NodeIds engine table repository := by
  cases table <;> rfl

/-- The common body of the two cell look-ups of base stations. -/
def getCellInfo (table : NodeTable) (repository : Repository D) (e2NodeId : UInt64) : Bool × UInt16 :=
  if repository.active then
    if isNodeRegistered repository e2NodeId then
      match ((repository.nodes table).rows.filter fun row => row.nodeid = e2NodeId.toInt64).getLast? with
      | none => (false, 0)
      | some row => (true, columnCellId row.key)
    else
      (false, 0)
  else
    (false, 0)

/-- `OranDataRepositorySqlite::GetLteEnbCellInfo`. -/
def getLteEnbCellInfo : Bool × UInt16 :=
  getCellInfo .lteEnb repository e2NodeId

/-- `OranDataRepositorySqlite::GetNrGnbCellInfo`. -/
def getNrGnbCellInfo : Bool × UInt16 :=
  getCellInfo .nrGnb repository e2NodeId

variable (technology : Technology)

/-- The common body of the two saves of a measurement. -/
def saveUeRsrpRsrq (repository : Repository D) (e2NodeId : UInt64)
    (t : Int) (rnti cellId : UInt16) (rsrp rsrq : D) (isServing : Bool)
    (componentCarrierId : UInt8) : Repository D :=
  if repository.active then
    if isNodeRegistered repository e2NodeId then
      { repository with
        uersrprsrq := Function.update repository.uersrprsrq technology
          (repository.uersrprsrq technology ++ [⟨e2NodeId.toInt64, t, rnti, cellId, rsrp, rsrq,
            isServing, componentCarrierId⟩]) }
    else
      repository
  else
    repository

/-- `OranDataRepositorySqlite::SaveNrUeRsrpRsrq`. -/
def saveNrUeRsrpRsrq (t : Int)
    (rnti cellId : UInt16) (rsrp rsrq : D) (isServing : Bool) (componentCarrierId : UInt8) :
    Repository D :=
  saveUeRsrpRsrq .nr repository e2NodeId t rnti cellId rsrp rsrq isServing componentCarrierId

/-- The common body of the two queries for measurements: the rows of the newest
time only. -/
def getUeRsrpRsrq (repository : Repository D) (e2NodeId : UInt64) :
    List (UInt16 × UInt16 × D × D × Bool × UInt8) :=
  if repository.active then
    if isNodeRegistered repository e2NodeId then
      (ofNewestTime RsrpRsrq.simulationtime ((repository.uersrprsrq technology).filter
        fun row => row.nodeid = e2NodeId.toInt64)).map fun row =>
          (row.rnti, row.cellid, row.rsrp, row.rsrq, row.serving, row.ccid)
    else
      []
  else
    []

/-- `OranDataRepositorySqlite::GetNrUeRsrpRsrq`. -/
def getNrUeRsrpRsrq : List (UInt16 × UInt16 × D × D × Bool × UInt8) :=
  getUeRsrpRsrq .nr repository e2NodeId

/-- The common body of the two look-ups of the UE behind a cell and an RNTI: the
row inserted last, and 0 when there is none. -/
def getUeE2NodeIdFromCellInfo (repository : Repository D) (cellId rnti : UInt16) : UInt64 :=
  if repository.active then
    match ((repository.uecell technology).filter fun row => row.cellid = cellId && row.rnti = rnti).getLast? with
    | none => 0
    | some row => row.nodeid.toUInt64
  else
    0

/-- `OranDataRepositorySqlite::GetLteUeE2NodeIdFromCellInfo`. -/
def getLteUeE2NodeIdFromCellInfo (cellId rnti : UInt16) : UInt64 :=
  getUeE2NodeIdFromCellInfo .lte repository cellId rnti

/-- `OranDataRepositorySqlite::GetNrUeE2NodeIdFromCellInfo`. -/
def getNrUeE2NodeIdFromCellInfo (cellId rnti : UInt16) : UInt64 :=
  getUeE2NodeIdFromCellInfo .nr repository cellId rnti

end Ns3.Oran.DataRepository
